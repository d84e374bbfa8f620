import MustacheMarkup.Proofs.Journal.Success
import MustacheMarkup.Proofs.Nesting.Build
import MustacheMarkup.Proofs.Template.Steps

/-!
# Building by descent follows the stack

Content is built by functions that call each other and decide at each token whether it is theirs.
The stack machine of `Nesting` decides the same at once. `Descends` ties the two together for the
content of one container: which parts it has and which tokens are left, as the machine sees it from
any stack with that container on top, and as building sees it from any state. It is put together
token by token, one lemma for each thing that a token can do, and holds for all tokens
(`exists_descends`).

So a template is built from how its tokens nest, and from nothing else (`result_template`).
-/

set_option autoImplicit false

namespace MustacheMarkup

open Building Journal

/-! ## Steps of the machine -/

namespace Nesting

/-- A token that is no text is not put together with others. -/
theorem joinTexts_cons_of_none {t : Token} (h : t.text? = none) (rest : List Token) :
    joinTexts (t :: rest) = t :: joinTexts rest := by
  rw [joinTexts, h]

/-- A text and the texts that follow it are read as one. -/
theorem joinTexts_cons_of_text (content : String) (span : Span) (rest : List Token) :
    joinTexts (⟨.text content, span⟩ :: rest) =
      ⟨.text (content ++ leadingText rest), span⟩ :: joinTexts (afterText rest) := by
  induction rest generalizing content span with
  | nil => simp [joinTexts, Token.text?, leadingText, afterText]
  | cons u rest ih =>
    obtain ⟨lexeme, span'⟩ := u
    rw [joinTexts]
    cases lexeme with
    | text content' =>
      rw [ih]
      simp [Token.text?, leadingText, afterText]
    | _ =>
      rw [joinTexts_cons_of_none rfl]
      simp only [Token.text?, leadingText, afterText, String.append_empty]
      exact congrArg _ (joinTexts_cons_of_none rfl rest).symm

/-- Without tokens nothing changes. -/
theorem run_nil (s : Nesting) : s.run [] = s := rfl

/-- A token that is no text is one step of the machine. -/
theorem run_cons_of_none {t : Token} (h : t.text? = none) (s : Nesting) (rest : List Token) :
    s.run (t :: rest) = (s.step t).run rest := by
  rw [run, joinTexts_cons_of_none h]
  rfl

/-- A text is read with those behind it, as one part. -/
theorem run_cons_of_text (s : Nesting) (content : String) (span : Span) (rest : List Token) :
    s.run (⟨.text content, span⟩ :: rest) =
      (s.add (.text (content ++ leadingText rest))).run (afterText rest) := by
  rw [run, joinTexts_cons_of_text]
  rfl

/-- What the innermost list of a stack is the content of. -/
def container : List Frame → Container
  | [] => .whole
  | ⟨.block reference _, _⟩ :: _ => .block reference
  | ⟨.element tag _, _⟩ :: _ => tag.container

/-- Close what is innermost, if anything is open. -/
def leave : Nesting → Nesting
  | ⟨content, []⟩ => ⟨content, []⟩
  | ⟨content, f :: frames⟩ => ⟨f.before ++ [f.opening.nested content], frames⟩

/-- To close what is innermost changes nothing for the end of the tokens, where all is closed. -/
theorem finish_leave (s : Nesting) : s.leave.finish = s.finish := by
  obtain ⟨content, _ | ⟨f, frames⟩⟩ := s <;> rfl

/-- A token before which the innermost content ends is read as if that were closed. So the machine,
which closes what it must all at once, can be followed one container at a time. -/
theorem step_of_before {s : Nesting} {t : Token}
    (h : (container s.frames).ending t.lexeme = .before) : s.step t = s.leave.step t := by
  obtain ⟨content, _ | ⟨⟨⟨reference, inverted⟩ | ⟨tag, span⟩, before⟩, frames⟩⟩ := s
  · cases h
  · obtain ⟨_ | _ | ⟨kind, _⟩ | _, _⟩ := t
    · cases h
    · cases h
    · cases kind <;> cases h
    · cases h
  · obtain ⟨_ | _ | ⟨kind, _⟩ | next, _⟩ := t
    · cases h
    · cases h
    · cases kind with
      | closing => rfl
      | _ => cases h
    · simp only [container, Tag.ending_container] at h
      simp only [step, leave, Opening.nested]
      split at h
      · rename_i hclosing
        rw [if_pos hclosing, if_pos hclosing]
        split at h
        · cases h
        · rename_i hname
          rw [leaveElement, if_neg (Ne.symm hname)]
      · rename_i hclosing
        rw [if_neg hclosing, if_neg hclosing]
        split at h
        · rename_i hcloses
          rw [openTag, openTag, leaveSiblings, if_pos hcloses]
        · cases h

/-- A token behind which the innermost content ends closes that and nothing more. It is a tag that
names the innermost element, or a closing mustache directly in a section. -/
theorem step_of_behind {s : Nesting} {t : Token}
    (h : (container s.frames).ending t.lexeme = .behind) : s.step t = s.leave := by
  obtain ⟨content, _ | ⟨⟨⟨reference, inverted⟩ | ⟨tag, span⟩, before⟩, frames⟩⟩ := s
  · cases h
  · obtain ⟨_ | _ | ⟨kind, _⟩ | _, _⟩ := t
    · cases h
    · cases h
    · cases kind with
      | closing => rfl
      | _ => cases h
    · cases h
  · obtain ⟨_ | _ | ⟨kind, _⟩ | next, _⟩ := t
    · cases h
    · cases h
    · cases kind <;> cases h
    · simp only [container, Tag.ending_container] at h
      split at h
      · rename_i hclosing
        split at h
        · rename_i hname
          simp only [step, if_pos hclosing, leaveElement, if_pos hname.symm]
          rfl
        · cases h
      · split at h <;> cases h

/-- A closing mustache with which content goes on closes nothing. -/
theorem step_of_stray_mustache {s : Nesting} {reference : String} {span : Span}
    (h : (container s.frames).ending (.mustache .closing reference) = .goesOn) :
    s.step ⟨.mustache .closing reference, span⟩ = s := by
  obtain ⟨content, _ | ⟨⟨⟨_, _⟩ | ⟨_, _⟩, _⟩, frames⟩⟩ := s
  · rfl
  · cases h
  · cases h

/-- A closing tag with which content goes on closes nothing. -/
theorem step_of_stray_tag {s : Nesting} {tag : Tag} {span : Span} (hclosing : tag.closing = true)
    (h : (container s.frames).ending (.tag tag) = .goesOn) : s.step ⟨.tag tag, span⟩ = s := by
  obtain ⟨content, _ | ⟨⟨⟨_, _⟩ | ⟨_, _⟩, _⟩, frames⟩⟩ := s
  · simp only [step, if_pos hclosing, leaveElement]
  · simp only [step, if_pos hclosing, leaveElement]
  · simp only [container, Tag.ending_container, if_pos hclosing] at h
    split at h <;> cases h

/-- An opening tag with which content goes on closes nothing. -/
theorem step_of_opening_tag {s : Nesting} {tag : Tag} {span : Span}
    (hclosing : tag.closing = false) (h : (container s.frames).ending (.tag tag) = .goesOn) :
    s.step ⟨.tag tag, span⟩ = if tag.isAlone then s.add (.element tag span none)
      else s.enter (.element tag span) := by
  have hopen : leaveSiblings (Text.lower tag.name) s.content s.frames = s := by
    obtain ⟨content, _ | ⟨⟨⟨_, _⟩ | ⟨_, _⟩, _⟩, frames⟩⟩ := s
    · rfl
    · rfl
    · simp only [container, Tag.ending_container, hclosing, Bool.false_eq_true, if_false] at h
      split at h
      · cases h
      · rename_i hcloses
        simp only [leaveSiblings, if_neg hcloses]
  simp only [step, hclosing, Bool.false_eq_true, if_false, openTag, hopen]

end Nesting

/-! ## Content of a container -/

namespace Building

open Nesting

/-- With the next token, the content of a container goes on with at most one part, and `rest` is
left. -/
structure GoesOn (container : Container) (tokens : List Token) (part : Option Nested)
    (rest : List Token) : Prop where
  suffix : rest <:+ tokens.tail
  run : ∀ s : Nesting, Nesting.container s.frames = container →
    (s.run tokens).finish = (Nesting.run ⟨s.content ++ part.toList, s.frames⟩ rest).finish
  build : ∀ settings keepBlanks index, Like (nextItem settings keepBlanks) ⟨tokens, index⟩
    (whenSome (Nested.build settings keepBlanks) part) rest

/-- The content of a container has these parts, and behind its end `rest` is left. -/
structure Descends (container : Container) (tokens : List Token) (parts : List Nested)
    (rest : List Token) : Prop where
  suffix : rest <:+ tokens
  whole : container = .whole → rest = []
  run : ∀ s : Nesting, Nesting.container s.frames = container →
    (s.run tokens).finish = (Nesting.run (leave ⟨s.content ++ parts, s.frames⟩) rest).finish
  build : ∀ settings keepBlanks index, Like (items settings container keepBlanks) ⟨tokens, index⟩
    (buildAll settings keepBlanks parts) rest

/-! ### The end of content -/

/-- At the end of the tokens all content ends, and it has no parts. -/
theorem descends_nil (container : Container) : Descends container [] [] [] where
  suffix := List.suffix_rfl
  whole _ := rfl
  run s _ := by rw [run_nil, run_nil, finish_leave, List.append_nil]
  build _ _ _ := ⟨rfl, rfl, fun _ _ => rfl⟩

/-- What building does where content ends. -/
theorem like_items_of_ended {container : Container} {t : Token} (rest : List Token)
    (h : container.ending t.lexeme ≠ .goesOn) (settings : Settings) (keepBlanks : Bool)
    (index : Nat) : Like (items settings container keepBlanks) ⟨t :: rest, index⟩
      (buildAll settings keepBlanks [])
      (if container.ending t.lexeme = .behind then rest else t :: rest) := by
  obtain ⟨hresult, hstate⟩ := ends_apply container t rest index
  rw [bne_iff_ne.mpr h] at hresult
  rw [items_eq]
  refine Like.after hresult ?_ (by rw [hstate])
  rw [if_pos rfl, hstate]
  exact like_pure [] ⟨_, index⟩

/-- A token that content ends at is no text. -/
theorem text?_eq_none_of_ended {container : Container} {t : Token}
    (h : container.ending t.lexeme ≠ .goesOn) : t.text? = none := by
  obtain ⟨lexeme, span⟩ := t
  cases lexeme with
  | text content => cases container <;> exact absurd rfl h
  | _ => rfl

/-- Content that ends before a token leaves it, and has no parts. -/
theorem descends_before {container : Container} {t : Token} (rest : List Token)
    (h : container.ending t.lexeme = .before) :
    Descends container (t :: rest) [] (t :: rest) where
  suffix := List.suffix_rfl
  whole hwhole := by
    rw [hwhole] at h
    cases h
  run s hs := by
    have htext := @text?_eq_none_of_ended container t (by rw [h]; decide)
    rw [← hs] at h
    rw [run_cons_of_none htext, step_of_before h, List.append_nil, run_cons_of_none htext]
  build settings keepBlanks index := by
    have hlike := @like_items_of_ended container t rest (by rw [h]; decide) settings keepBlanks
      index
    rwa [h] at hlike

/-- Content that ends behind a token uses it, and has no parts. -/
theorem descends_behind {container : Container} {t : Token} (rest : List Token)
    (h : container.ending t.lexeme = .behind) : Descends container (t :: rest) [] rest where
  suffix := List.suffix_cons t rest
  whole hwhole := by
    rw [hwhole] at h
    cases h
  run s hs := by
    have htext := @text?_eq_none_of_ended container t (by rw [h]; decide)
    rw [← hs] at h
    rw [run_cons_of_none htext, step_of_behind h, List.append_nil]
  build settings keepBlanks index := by
    have hlike := @like_items_of_ended container t rest (by rw [h]; decide) settings keepBlanks
      index
    rwa [h, if_pos rfl] at hlike

/-! ### Going on -/

/-- Items are built of one part after the other. The first part may be missing, as with tokens that
leave nothing. -/
theorem buildAll_toList_append (settings : Settings) (keepBlanks : Bool) (part : Option Nested)
    (parts : List Nested) : buildAll settings keepBlanks (part.toList ++ parts) = (do
      let item ← whenSome (Nested.build settings keepBlanks) part
      let items ← buildAll settings keepBlanks parts
      return item.toList ++ items) := by
  cases part with
  | none => simp [whenSome]
  | some part => simp [whenSome, buildAll]

/-- With one part more at its start, content goes down in the same way. This is the step of the main
induction. -/
theorem GoesOn.descends {container : Container} {t : Token} {tokens mid rest : List Token}
    {part : Option Nested} {parts : List Nested}
    (hending : container.ending t.lexeme = .goesOn)
    (h : GoesOn container (t :: tokens) part mid) (hmid : Descends container mid parts rest) :
    Descends container (t :: tokens) (part.toList ++ parts) rest where
  suffix := (hmid.suffix.trans h.suffix).trans (List.suffix_cons t tokens)
  whole := hmid.whole
  run s hs := by
    rw [h.run s hs, hmid.run ⟨s.content ++ part.toList, s.frames⟩ hs, List.append_assoc]
  build settings keepBlanks index := by
    obtain ⟨hresult, hstate⟩ := ends_apply container t tokens index
    rw [hending] at hresult hstate
    rw [items_eq, buildAll_toList_append]
    refine Like.after hresult ?_ (by rw [hstate])
    rw [hstate]
    refine (h.build settings keepBlanks index).bind fun item index' => ?_
    refine (hmid.build settings keepBlanks index').bind fun items index'' => ?_
    exact like_pure (item.toList ++ items) ⟨rest, index''⟩

/-- Neighbouring texts are one part. -/
theorem goesOn_text (container : Container) (content : String) (span : Span)
    (tokens : List Token) : GoesOn container (⟨.text content, span⟩ :: tokens)
      (some (.text (content ++ leadingText tokens))) (afterText tokens) where
  suffix := afterText_suffix tokens
  run s _ := by
    rw [run_cons_of_text]
    rfl
  build settings keepBlanks index := by
    rw [nextItem_eq]
    exact ⟨rfl, rfl, fun _ _ => rfl⟩

/-- A token that stands for itself alone is one part or none. The machine adds that part where it
stands, and building gives its item without a look at what follows. -/
theorem goesOn_of_step {container : Container} {t : Token} {part : Option Nested}
    (tokens : List Token) (htext : t.text? = none)
    (hstep : ∀ s : Nesting, Nesting.container s.frames = container →
      s.step t = ⟨s.content ++ part.toList, s.frames⟩)
    (hbuild : ∀ settings keepBlanks index, Like (nextItem settings keepBlanks)
      ⟨t :: tokens, index⟩ (whenSome (Nested.build settings keepBlanks) part) tokens) :
    GoesOn container (t :: tokens) part tokens where
  suffix := List.suffix_rfl
  run s hs := by rw [run_cons_of_none htext, hstep s hs]
  build := hbuild

/-- A comment is a part. -/
theorem goesOn_comment (container : Container) (content : String) (span : Span)
    (tokens : List Token) :
    GoesOn container (⟨.comment content, span⟩ :: tokens) (some (.comment content)) tokens := by
  refine goesOn_of_step tokens rfl (fun _ _ => rfl) fun settings keepBlanks index => ?_
  rw [nextItem_eq]
  exact ⟨rfl, rfl, fun _ _ => rfl⟩

/-- A closing tag that nothing claims is nothing. -/
theorem goesOn_strayTag {container : Container} {tag : Tag} {span : Span} (tokens : List Token)
    (hclosing : tag.closing = true) (hending : container.ending (.tag tag) = .goesOn) :
    GoesOn container (⟨.tag tag, span⟩ :: tokens) none tokens := by
  refine goesOn_of_step tokens rfl (fun s hs => ?_) fun settings keepBlanks index => ?_
  · rw [← hs] at hending
    rw [step_of_stray_tag hclosing hending]
    simp
  · rw [nextItem_eq]
    unfold Like
    rw [nextItemWith_closingTag keepBlanks hclosing]
    exact ⟨rfl, rfl, fun _ _ => rfl⟩

/-! ### Mustaches -/

/-- A mustache is used before anything else. -/
theorem nextItemWith_mustache {settings : Settings}
    {collect : Container → Bool → Building (List Item)} (keepBlanks : Bool) (kind : MustacheKind)
    (reference : String) (span : Span) (tokens : List Token) (index : Nat) :
    nextItemWith settings collect keepBlanks ⟨⟨.mustache kind reference, span⟩ :: tokens, index⟩ =
      mustacheWith collect keepBlanks kind reference span.line ⟨tokens, index⟩ := by
  simp only [nextItemWith, bind_apply, peek, List.head?_cons]
  rfl

/-- A section is a part with the content that ends with it. What ends that is a closing mustache,
whatever its reference is, or the end of all tokens. -/
theorem goesOn_section (container : Container) {reference : String} {inverted : Bool}
    {kind : MustacheKind} (hkind : kind = if inverted then .inverted else .opening) (span : Span)
    {tokens rest : List Token} {parts : List Nested}
    (h : Descends (.block reference) tokens parts rest) :
    GoesOn container (⟨.mustache kind reference, span⟩ :: tokens)
      (some (.block reference inverted parts)) rest where
  suffix := h.suffix
  run s _ := by
    have hstep : s.step ⟨.mustache kind reference, span⟩ = s.enter (.block reference inverted) := by
      rw [hkind]
      cases inverted <;> rfl
    rw [run_cons_of_none rfl, hstep, h.run _ rfl]
    rfl
  build settings keepBlanks index := by
    have hnext : nextItem settings keepBlanks ⟨⟨.mustache kind reference, span⟩ :: tokens, index⟩ =
        ((fun content => some (.block reference inverted content)) <$>
          items settings (.block reference) keepBlanks) ⟨tokens, index⟩ := by
      rw [nextItem_eq, nextItemWith_mustache, hkind, map_eq_pure_bind]
      cases inverted <;> rfl
    have hbuild : whenSome (Nested.build settings keepBlanks)
        (some (.block reference inverted parts)) =
          (fun content => some (.block reference inverted content)) <$>
            buildAll settings keepBlanks parts := by
      rw [whenSome, Nested.build, ← map_eq_pure_bind, ← comp_map]
      rfl
    unfold Like
    rw [hnext, hbuild]
    exact (h.build settings keepBlanks index).map _

/-- A mustache with which content goes on is at most one part, if sections can be built. A remark is
none, and neither is a closing mustache that has nothing to close. -/
theorem exists_goesOn_mustache {container : Container} {kind : MustacheKind} {reference : String}
    (span : Span) {tokens : List Token}
    (hending : container.ending (.mustache kind reference) = .goesOn)
    (hsection : ∃ parts rest, Descends (.block reference) tokens parts rest) :
    ∃ part rest, GoesOn container (⟨.mustache kind reference, span⟩ :: tokens) part rest := by
  have hleaf : ∀ part, (∀ s : Nesting, Nesting.container s.frames = container →
      s.step ⟨.mustache kind reference, span⟩ = ⟨s.content ++ part.toList, s.frames⟩) →
      (∀ settings keepBlanks index, Like (mustacheWith (items settings) keepBlanks kind reference
        span.line) ⟨tokens, index⟩ (whenSome (Nested.build settings keepBlanks) part) tokens) →
      ∃ part rest, GoesOn container (⟨.mustache kind reference, span⟩ :: tokens) part rest := by
    intro part hstep hbuild
    refine ⟨part, tokens, goesOn_of_step tokens rfl hstep fun settings keepBlanks index => ?_⟩
    unfold Like
    rw [nextItem_eq, nextItemWith_mustache]
    exact hbuild settings keepBlanks index
  cases kind with
  | interpolation =>
    exact hleaf (some (.mustache true reference)) (fun _ _ => rfl) fun _ _ _ =>
      like_pure _ ⟨tokens, _⟩
  | unescaped =>
    exact hleaf (some (.mustache false reference)) (fun _ _ => rfl) fun _ _ _ =>
      like_pure _ ⟨tokens, _⟩
  | inclusion =>
    exact hleaf (some (.inclusion reference)) (fun _ _ => rfl) fun _ _ _ => like_pure _ ⟨tokens, _⟩
  | remark =>
    refine hleaf none (fun s _ => ?_) fun _ _ _ => like_pure _ ⟨tokens, _⟩
    simp [step]
  | closing =>
    refine hleaf none (fun s hs => ?_) fun _ _ _ => ⟨rfl, rfl, fun _ _ => rfl⟩
    rw [← hs] at hending
    rw [step_of_stray_mustache hending]
    simp
  | opening =>
    obtain ⟨parts, rest, h⟩ := hsection
    exact ⟨_, _, @goesOn_section container reference false _ rfl span _ _ _ h⟩
  | inverted =>
    obtain ⟨parts, rest, h⟩ := hsection
    exact ⟨_, _, @goesOn_section container reference true _ rfl span _ _ _ h⟩

/-! ### Elements -/

/-- An element is its header and its content. The header is built first, so it has the identities
before those of the content, and the content is trimmed unless its blanks are kept. -/
theorem elementWith_eq (settings : Settings) (keepBlanks : Bool) (tag : Tag) (span : Span) :
    elementWith settings (items settings) keepBlanks tag span = (do
      advance
      let header ← numbered (elementHeader settings tag span)
      if tag.isAlone then do
        note (.built (Text.lower tag.name))
        return tag.element header none
      else do
        note (.opened (Text.lower tag.name))
        let children ← items settings tag.container (tag.keepsBlanks keepBlanks)
        return tag.element header
          (some (if tag.keepsBlanks keepBlanks then children else trimBoundary children))) := by
  funext ⟨tokens, index⟩
  have hheader : elementHeader settings tag span index =
      match elementKind settings.options (fragmentItems settings) (Text.lower tag.name) tag span
        (index + 1) with
      | ⟨.error e, index', log⟩ => ⟨.error e, index', log⟩
      | ⟨.ok kind, index', log⟩ => ⟨.ok (⟨settings.run, index⟩, kind), index', log⟩ := by
    simp only [elementHeader, bind_apply, Journal.get, Journal.modify, List.nil_append]
    rcases elementKind settings.options (fragmentItems settings) (Text.lower tag.name) tag span
      (index + 1) with ⟨_ | kind, index', log⟩
    · rfl
    · simp [pure_apply]
  unfold elementWith
  simp only [bind_apply, advance, takeIndex, Journal.modify, numbered, focus, hheader]
  have hfragment : fragment (items settings .whole true) = fragmentItems settings := rfl
  rw [hfragment]
  rcases elementKind settings.options (fragmentItems settings) (Text.lower tag.name) tag span
    (index + 1) with ⟨_ | kind, index', log⟩
  · rfl
  · by_cases halone : tag.isAlone = true
    · have halone' : (tag.selfClosing || Vocabulary.isVoid (Text.lower tag.name)) = true := halone
      simp only [if_pos halone, if_pos halone']
      rfl
    · have halone' : ¬(tag.selfClosing || Vocabulary.isVoid (Text.lower tag.name)) = true := halone
      simp only [if_neg halone, if_neg halone']
      rfl

/-- For an opening tag an element is built, and no other item. -/
theorem nextItem_openingTag {settings : Settings} {tag : Tag} (hclosing : tag.closing = false)
    (keepBlanks : Bool) (span : Span) (tokens : List Token) (index : Nat) :
    nextItem settings keepBlanks ⟨⟨.tag tag, span⟩ :: tokens, index⟩ =
      ((fun e => some (.element e)) <$> elementWith settings (items settings) keepBlanks tag span)
        ⟨⟨.tag tag, span⟩ :: tokens, index⟩ := by
  rw [nextItem_eq, nextItemWith_openingTag keepBlanks hclosing]

/-- An element that never has content is a part for itself. On both sides its tag is all that is
used. -/
theorem goesOn_alone {container : Container} {tag : Tag} {span : Span} (tokens : List Token)
    (hclosing : tag.closing = false) (halone : tag.isAlone = true)
    (hending : container.ending (.tag tag) = .goesOn) :
    GoesOn container (⟨.tag tag, span⟩ :: tokens) (some (.element tag span none)) tokens := by
  refine goesOn_of_step tokens rfl (fun s hs => ?_) fun settings keepBlanks index => ?_
  · rw [← hs] at hending
    rw [step_of_opening_tag hclosing hending, if_pos halone]
    rfl
  · have hbuild : whenSome (Nested.build settings keepBlanks) (some (.element tag span none)) =
        (fun e => some (.element e)) <$> (do
          let header ← elementHeader settings tag span
          return tag.element header none) := by
      simp only [whenSome, Nested.build, map_bind, map_pure]
    unfold Like
    rw [nextItem_openingTag hclosing, hbuild, elementWith_eq]
    refine Like.map _ (Like.after rfl ?_ rfl)
    simp only [if_pos halone]
    refine (like_numbered _ _).bind fun header index' => ?_
    exact Like.after rfl (like_pure _ ⟨tokens, index'⟩) rfl

/-- An element that has content is a part with the content that ends before or with its end. Its
header takes no tokens but the tag, whatever the attributes are. -/
theorem goesOn_element {container : Container} {tag : Tag} {span : Span}
    {tokens rest : List Token} {parts : List Nested}
    (hclosing : tag.closing = false) (halone : ¬tag.isAlone = true)
    (hending : container.ending (.tag tag) = .goesOn)
    (h : Descends tag.container tokens parts rest) :
    GoesOn container (⟨.tag tag, span⟩ :: tokens) (some (.element tag span (some parts))) rest where
  suffix := h.suffix
  run s hs := by
    rw [← hs] at hending
    rw [run_cons_of_none rfl, step_of_opening_tag hclosing hending, if_neg halone, h.run _ rfl]
    rfl
  build settings keepBlanks index := by
    have hbuild : whenSome (Nested.build settings keepBlanks)
        (some (.element tag span (some parts))) =
        (fun e => some (.element e)) <$> (do
          let header ← elementHeader settings tag span
          let children ← buildAll settings (tag.keepsBlanks keepBlanks) parts
          return tag.element header
            (some (if tag.keepsBlanks keepBlanks then children else trimBoundary children))) := by
      simp only [whenSome, Nested.build, map_bind, map_pure]
    unfold Like
    rw [nextItem_openingTag hclosing, hbuild, elementWith_eq]
    refine Like.map _ (Like.after rfl ?_ rfl)
    simp only [if_neg halone]
    refine (like_numbered _ _).bind fun header index' => ?_
    refine Like.after rfl ?_ rfl
    refine (h.build settings (tag.keepsBlanks keepBlanks) index').bind fun children index'' => ?_
    exact like_pure _ ⟨rest, index''⟩

/-! ### All content -/

/-- With a token that does not end it, content goes on, if lighter tokens are the content of
anything. -/
theorem exists_goesOn {container : Container} {t : Token} {tokens : List Token}
    (hending : container.ending t.lexeme = .goesOn)
    (hinner : ∀ container, ∃ parts rest, Descends container tokens parts rest) :
    ∃ part rest, GoesOn container (t :: tokens) part rest := by
  obtain ⟨lexeme, span⟩ := t
  cases lexeme with
  | text content => exact ⟨_, _, goesOn_text container content span tokens⟩
  | comment content => exact ⟨_, _, goesOn_comment container content span tokens⟩
  | mustache kind reference => exact exists_goesOn_mustache span hending (hinner _)
  | tag tag =>
    cases hclosing : tag.closing with
    | true => exact ⟨_, _, goesOn_strayTag tokens hclosing hending⟩
    | false =>
      by_cases halone : tag.isAlone = true
      · exact ⟨_, _, goesOn_alone tokens hclosing halone hending⟩
      · obtain ⟨parts, rest, h⟩ := hinner tag.container
        exact ⟨_, _, goesOn_element hclosing halone hending h⟩

/-- Any tokens start with the content of any container. The induction is on their number: the first
is one part with the content of what it opens, or it ends the content. -/
theorem exists_descends (container : Container) (tokens : List Token) :
    ∃ parts rest, Descends container tokens parts rest := by
  induction hlength : tokens.length using Nat.strongRecOn generalizing container tokens with
  | ind n ih =>
    cases tokens with
    | nil => exact ⟨_, _, descends_nil container⟩
    | cons t tokens =>
      subst hlength
      cases hending : container.ending t.lexeme with
      | before => exact ⟨_, _, descends_before tokens hending⟩
      | behind => exact ⟨_, _, descends_behind tokens hending⟩
      | goesOn =>
        obtain ⟨part, mid, hpart⟩ := exists_goesOn hending fun container =>
          ih _ (Nat.lt_succ_self tokens.length) container tokens rfl
        have hmid : mid.length < (t :: tokens).length :=
          Nat.lt_succ_of_le hpart.suffix.length_le
        obtain ⟨parts, rest, hparts⟩ := ih _ hmid container mid rfl
        exact ⟨_, _, hpart.descends hending hparts⟩

/-! ## Templates -/

/-- All tokens together are the content of the whole, with the parts that the machine finds. -/
theorem descends_ofTokens (tokens : List Token) :
    Descends .whole tokens (Nesting.ofTokens tokens) [] := by
  obtain ⟨parts, rest, h⟩ := exists_descends .whole tokens
  obtain rfl := h.whole rfl
  have hrun := h.run empty rfl
  rw [Nesting.ofTokens, hrun]
  exact h

/-- The items of tokens are those of the parts that the machine finds. -/
theorem like_items (settings : Settings) (keepBlanks : Bool) (tokens : List Token)
    (index : Nat) : Like (items settings .whole keepBlanks) ⟨tokens, index⟩
      (buildAll settings keepBlanks (Nesting.ofTokens tokens)) [] :=
  (descends_ofTokens tokens).build settings keepBlanks index

/-- A fragment is built of how its tokens nest. -/
theorem fragmentItems_result (settings : Settings) (tokens : List Token) (index : Nat) :
    (fragmentItems settings tokens index).result =
      (buildAll settings true (Nesting.ofTokens tokens) index).result := by
  rw [← (like_items settings true tokens index).1]
  unfold fragmentItems fragment
  dsimp only
  split
  · rename_i hresult
    exact hresult.symm
  · rename_i hresult
    exact hresult.symm

end Building

/-- A template is built of how its tokens nest. -/
theorem Template.ofTokens_result (settings : Settings) (tokens : List Token) :
    (Template.ofTokens settings tokens).result =
      (buildAll settings settings.options.preserveWhitespace (Nesting.ofTokens tokens) 0).result.map
        fun built => if settings.options.preserveWhitespace then built else trimBoundary built := by
  rw [Template.ofTokens, Building.template, ← map_eq_pure_bind, map_apply]
  exact congrArg (Except.map _) (Building.like_items settings _ tokens 0).1

/-- A template that is built is built of the parts that the machine finds, and uses all tokens. What
holds of templates is proved along these parts, by induction over how they nest. -/
theorem Template.exists_buildAll_of_ofTokens {settings : Settings} {tokens : List Token}
    {items : List Item} (h : (Template.ofTokens settings tokens).result = .ok items) :
    ∃ built, (buildAll settings settings.options.preserveWhitespace (Nesting.ofTokens tokens)
        0).result = .ok built ∧
      (if settings.options.preserveWhitespace then built else trimBoundary built) = items ∧
      (Template.ofTokens settings tokens).state.tokens = [] := by
  obtain ⟨hresult, -, hrest⟩ :=
    Building.like_items settings settings.options.preserveWhitespace tokens 0
  rw [Template.ofTokens, Building.template, ← map_eq_pure_bind] at h ⊢
  obtain ⟨built, hbuilt, hitems⟩ := Journal.result_map_eq_ok h
  refine ⟨built, ?_, hitems, ?_⟩
  · rw [← hresult]
    exact hbuilt
  · rw [Journal.map_apply]
    exact hrest built hbuilt

/-- A source text is parsed as its tokens are built. -/
theorem Template.exists_ofTokens_of_parse {options : Options} {source : String} {items : List Item}
    (h : Template.parse options source = .ok items) :
    ∃ tokens, tokenize source = .ok tokens ∧
      (Template.ofTokens ⟨options, 0⟩ tokens).result = .ok items := by
  unfold Template.parse Template.ofSource at h
  cases htokens : tokenize source with
  | error e =>
    rw [htokens] at h
    cases h
  | ok tokens =>
    rw [htokens] at h
    exact ⟨tokens, rfl, h⟩

/-- What it is to parse a source text to certain items: it can be read, and its tokens, as they
nest, can be built to items that are these once they are trimmed. -/
theorem Template.parse_eq_ok_iff {options : Options} {source : String} {items : List Item} :
    Template.parse options source = .ok items ↔ ∃ tokens built, tokenize source = .ok tokens ∧
      (buildAll ⟨options, 0⟩ options.preserveWhitespace (Nesting.ofTokens tokens) 0).result =
        .ok built ∧ (if options.preserveWhitespace then built else trimBoundary built) = items := by
  unfold Template.parse Template.ofSource
  cases htokens : tokenize source with
  | error e =>
    refine ⟨fun h => ?_, fun ⟨tokens, built, h, _⟩ => ?_⟩
    · cases h
    · cases h
  | ok tokens =>
    have hresult := Template.ofTokens_result ⟨options, 0⟩ tokens
    show (Template.ofTokens ⟨options, 0⟩ tokens).result = .ok items ↔ _
    rw [hresult]
    constructor
    · intro h
      cases hbuilt : (buildAll ⟨options, 0⟩ options.preserveWhitespace (Nesting.ofTokens tokens)
          0).result with
      | error e =>
        rw [hbuilt] at h
        cases h
      | ok built =>
        rw [hbuilt] at h
        exact ⟨tokens, built, rfl, hbuilt, Except.ok.inj h⟩
    · rintro ⟨tokens', built, htokens', hbuilt, rfl⟩
      obtain rfl := Except.ok.inj htokens'
      rw [hbuilt]
      rfl

end MustacheMarkup
