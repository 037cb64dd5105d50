import Parlance.Proofs.Dictionary
import Parlance.Proofs.Nesting.Step

/-!
# Building undoes writing

A document is what a sequence of tokens with matching bounds stands for: items, which
are leaves and whole bounds, and the separators between the elements of a bound.
Written out, it is a list of tokens; as a tree, it is the branches of its bounds and
elements with its leaves. When a nesting tells the tokens of the document apart,
building the tokens gives back the tree and reports nothing. The root leaves out a
last element that is empty and not the only one; a bound keeps it.
-/

namespace Parlance

namespace Nesting

mutual

/-- A token that stands for itself, or a bound with its two tokens and what is between
them. -/
inductive Item where
  | leaf (token : Token)
  | nested (bound : Bound) (opener : Token) (content : Content) (closer : Token)

/-- What stands in a bound: its elements, with a separator between each and the next.
The contents of a bound without elements are those of a single one. -/
inductive Content where
  | last (items : List Item)
  | more (items : List Item) (separator : Token) (others : Content)

end

mutual

/-- The item written out. -/
def Item.tokens : Item → List Token
  | .leaf token => [token]
  | .nested _ opener content closer => opener :: (content.tokens ++ [closer])

/-- The content written out. -/
def Content.tokens : Content → List Token
  | .last items => itemTokens items
  | .more items separator others => itemTokens items ++ separator :: others.tokens

/-- The items written out one behind the other. -/
def itemTokens : List Item → List Token
  | [] => []
  | item :: items => item.tokens ++ itemTokens items

end

/-- The children that an element with the given contents adds to its bound: a branch,
or the contents themselves when the bound has no elements. -/
def elementTrees (element : Option String) (contents : List Tree) : List Tree :=
  match element with
  | none => contents
  | some name => [.branch name contents]

mutual

/-- The tree of an item. -/
def Item.tree : Item → Tree
  | .leaf token => .leaf token
  | .nested bound _ content _ => .branch bound.name (content.trees bound.element)

/-- The children of a bound with this content. -/
def Content.trees (element : Option String) : Content → List Tree
  | .last items => elementTrees element (itemTrees items)
  | .more items _ others => elementTrees element (itemTrees items) ++ others.trees element

/-- The trees of the items. -/
def itemTrees : List Item → List Tree
  | [] => []
  | item :: items => item.tree :: itemTrees items

end

/-- The content without its last element, when that is empty and not the only one. -/
def Content.pruned : Content → Content
  | .last items => .last items
  | .more items _ (.last []) => .last items
  | .more items separator others => .more items separator others.pruned

/-- Only an empty element at the end is left out: in front of anything else an element is kept, and
the end is looked for further on. -/
theorem Content.pruned_more {items : List Item} {separator : Token} {others : Content}
    (filled : others ≠ .last []) :
    (more items separator others).pruned = .more items separator others.pruned := by
  rw [Content.pruned]
  simpa using filled

mutual

/-- The item can stand in `bound`: a leaf is no start, no closing token and not the
separator of `bound`; a nested bound is a declared one between its own tokens. -/
def Item.Fits (nesting : Nesting) (bound : Bound) : Item → Prop
  | .leaf token =>
    nesting.opened? token.value = none ∧ nesting.closed? token.value = none ∧
      bound.split ≠ some token.value
  | .nested inner opener content closer =>
    nesting.opened? opener.value = some inner ∧ closer.value = inner.closing ∧
      content.Fits nesting inner

/-- The content can stand in `bound`: its items can, and where there is more than one
element, `bound` has elements and a separator. -/
def Content.Fits (nesting : Nesting) (bound : Bound) : Content → Prop
  | .last items => itemsFit nesting bound items
  | .more items separator others =>
    bound.element.isSome ∧ bound.split = some separator.value ∧
      itemsFit nesting bound items ∧ others.Fits nesting bound

/-- Each of the items can stand in `bound`. -/
def itemsFit (nesting : Nesting) (bound : Bound) : List Item → Prop
  | [] => True
  | item :: items => item.Fits nesting bound ∧ itemsFit nesting bound items

end

/-- Closing a bound inside this one divides no elements, and the separator opens no
bound. -/
structure Plain (nesting : Nesting) (bound : Bound) : Prop where
  unflagged : bound.endIsParentSplit = false
  splitUnopened : ∀ split, bound.split = some split → nesting.opened? split = none

/-- The tokens of the nesting can be told apart: the root and every declared bound are
plain, and the closing token of a bound opens no bound and does not divide its
elements. -/
structure Distinct (nesting : Nesting) : Prop where
  root : nesting.Plain nesting.root
  bounds : ∀ start bound, nesting.opened? start = some bound → nesting.Plain bound
  closingUnopened : ∀ start bound, nesting.opened? start = some bound →
    nesting.opened? bound.closing = none
  closingUndivided : ∀ start bound, nesting.opened? start = some bound →
    bound.split ≠ some bound.closing

end Nesting

open Nesting

namespace Frame

/-- The frame with the trees put behind what is there, one after the other. -/
def pushAll (frame : Frame) (trees : List Tree) : Frame := trees.foldl push frame

/-- The frame after the content has been put behind what is there. -/
def fill (frame : Frame) : Content → Frame
  | .last items => frame.pushAll (itemTrees items)
  | .more items _ others => (frame.pushAll (itemTrees items)).next.fill others

/-- Trees that are put in one by one stand together at the end of the element in progress, or of the
bound itself when it has no elements. -/
theorem pushAll_eq (frame : Frame) (trees : List Tree) :
    frame.pushAll trees =
      match frame.current with
      | none => { frame with finished := trees.reverse ++ frame.finished }
      | some contents => { frame with current := some (trees.reverse ++ contents) } := by
  induction trees generalizing frame with
  | nil => cases current : frame.current <;> simp [pushAll, ← current]
  | cons tree trees inductionHypothesis =>
    have first : frame.pushAll (tree :: trees) = (frame.push tree).pushAll trees := rfl
    rw [first, inductionHypothesis]
    cases current : frame.current <;> simp [push, current]

/-- Putting trees in leaves the bound that is filled as it is. -/
@[simp] theorem pushAll_bound (frame : Frame) (trees : List Tree) :
    (frame.pushAll trees).bound = frame.bound := by
  cases current : frame.current <;> simp [pushAll_eq, current]

/-- Putting trees in neither begins nor ends an element level. -/
@[simp] theorem pushAll_current_isSome (frame : Frame) (trees : List Tree) :
    (frame.pushAll trees).current.isSome = frame.current.isSome := by
  cases current : frame.current <;> simp [pushAll_eq, current]

/-- Filling a bound leaves the bound as it is, over all elements of the content. -/
@[simp] theorem fill_bound (frame : Frame) (content : Content) :
    (frame.fill content).bound = frame.bound := by
  fun_induction fill frame content <;> simp_all

/-- An element has just begun, or the bound has none. -/
def Fresh (frame : Frame) : Prop := frame.current = frame.bound.element.map fun _ => []

/-- A bound that has just been opened is fresh. -/
theorem start_fresh (bound : Bound) (opener : Option Token) : (start bound opener).Fresh := rfl

/-- A separator behind the contents of an element makes a branch of them and begins the
next element. -/
theorem next_pushAll (frame : Frame) (trees : List Tree) (fresh : frame.Fresh) {name : String}
    (element : frame.bound.element = some name) :
    (frame.pushAll trees).next =
      { frame with finished := .branch name trees :: frame.finished, current := some [] } := by
  have current : frame.current = some [] := Eq.trans fresh (by rw [element]; rfl)
  simp [pushAll_eq, next, elementNode, current, element]

/-- A bound that is finished behind the contents of an element holds what that element
adds, unless an empty element is left out. -/
theorem branch_pushAll (prune : Bool) (frame : Frame) (trees : List Tree) (fresh : frame.Fresh)
    (kept : prune → frame.finished = [] ∨ trees ≠ []) :
    (frame.pushAll trees).branch prune =
      .branch frame.bound.name
        (frame.finished.reverse ++ elementTrees frame.bound.element trees) := by
  cases element : frame.bound.element with
  | none =>
    have current : frame.current = none := Eq.trans fresh (by rw [element]; rfl)
    simp [pushAll_eq, branch, node, current, elementTrees]
  | some name =>
    have current : frame.current = some [] := Eq.trans fresh (by rw [element]; rfl)
    simp only [pushAll_eq, branch, next, node, elementNode, current, element, elementTrees]
    rw [if_neg]
    · simp
    · intro omitted
      simp only [List.append_nil, Bool.and_eq_true, List.isEmpty_reverse, List.isEmpty_iff,
        Bool.not_eq_true', List.isEmpty_eq_false_iff] at omitted
      exact (kept omitted.1.1).elim omitted.2 (fun filled => filled omitted.1.2)

/-- A frame filled with content and finished is the branch of what it held and the
trees of the content. Only with `prune` set, and only behind another element, an empty
last element is left out.

Proof: by induction on the elements. The last one is finished with the bound; each of
the others is finished by the separator behind it, which begins the next. -/
theorem branch_fill (nesting : Nesting) (prune : Bool) (frame : Frame) (content : Content)
    (fresh : frame.Fresh) (fits : content.Fits nesting frame.bound)
    (kept : prune → frame.finished = [] ∨ content ≠ .last []) :
    (frame.fill content).branch prune =
      .branch frame.bound.name
        (frame.finished.reverse ++
          (if prune then content.pruned else content).trees frame.bound.element) := by
  fun_induction fill frame content with
  | case1 frame items =>
    have contents : prune → frame.finished = [] ∨ itemTrees items ≠ [] := by
      intro pruning
      refine (kept pruning).imp_right fun filled empty => filled ?_
      cases items <;> simp_all [itemTrees]
    rw [branch_pushAll prune frame _ fresh contents]
    simp [Content.pruned, Content.trees]
  | case2 frame items separator others inductionHypothesis =>
    obtain ⟨hasElement, -, -, othersFit⟩ := fits
    obtain ⟨name, element⟩ := Option.isSome_iff_exists.mp hasElement
    rw [next_pushAll frame _ fresh element] at inductionHypothesis ⊢
    by_cases dropped : prune = true ∧ others = .last []
    · obtain ⟨rfl, rfl⟩ := dropped
      simp [fill, itemTrees, pushAll, branch, node, Content.pruned, Content.trees, elementTrees,
        element]
    · have filled : prune → others ≠ .last [] := fun pruning empty => dropped ⟨pruning, empty⟩
      rw [inductionHypothesis (by simp [Fresh, element]) othersFit
        fun pruning => .inr (filled pruning)]
      cases prune with
      | false => simp [Content.trees, element, elementTrees]
      | true => simp [Content.pruned_more (filled rfl), Content.trees, element, elementTrees]

end Frame

namespace Building

/-- The building fills `bound`, which is the root or a declared bound, and has an element
in progress where `bound` has elements. -/
structure Filling (nesting : Nesting) (bound : Bound) (building : Building Unit) : Prop where
  top : building.top.bound = bound
  level : building.top.current.isSome = bound.element.isSome
  declared : building.outer = [] ∨ ∃ start, nesting.opened? start = some bound

section

variable {nesting : Nesting} {bound : Bound} {building : Building Unit}

/-- A start inside the bound leads to the building that fills the new bound, which is a declared
one. -/
theorem Filling.start (building : Building Unit) {opener : Token}
    (opens : nesting.opened? opener.value = some bound) :
    Filling nesting bound
      { building with
        top := .start bound (some opener), outer := building.top :: building.outer } where
  top := rfl
  level := by simp [Frame.start]
  declared := .inr ⟨_, opens⟩

/-- The bound is still being filled after a change of its contents. -/
theorem Filling.changed (filling : building.Filling nesting bound) {frame : Frame}
    (sameBound : frame.bound = building.top.bound)
    (sameLevel : frame.current.isSome = building.top.current.isSome) :
    Filling nesting bound { building with top := frame } where
  top := sameBound.trans filling.top
  level := sameLevel.trans filling.level
  declared := filling.declared

/-- What is no closing token does not close the bound being filled. That bound is a declared one, or
it is the root, which no token closes. -/
theorem Filling.stays (filling : building.Filling nesting bound) {value : String}
    (unclosed : nesting.closed? value = none) :
    building.outer = [] ∨ building.top.bound.closing ≠ value := by
  refine filling.declared.imp_right ?_
  rintro ⟨start, opens⟩ closes
  have found : bound ∈ nesting.bounds.values :=
    (Dictionary.mem_values_iff nesting.bounds bound).mpr ⟨start, opens⟩
  have different := List.find?_eq_none.mp unclosed bound found
  rw [filling.top] at closes
  exact different (by simpa using closes)

/-- A leaf that fits becomes the newest child. -/
theorem Filling.take_leaf_eq (filling : building.Filling nesting bound) {token : Token}
    (fits : (Item.leaf token).Fits nesting bound) :
    building.take nesting .none token =
      { building with top := building.top.push (.leaf token) } := by
  obtain ⟨unopened, unclosed, undivided⟩ := fits
  rw [take_leaf unopened (filling.stays unclosed) _ unclosed, Ledger.visit_none]
  simp [Frame.isSplitBy, filling.top, undivided]

/-- The separator of a bound with elements begins the next element. It opens nothing, since tokens
can be told apart, and it is not the closing token of the bound. -/
theorem Filling.take_separator_eq (distinct : nesting.Distinct) (plain : nesting.Plain bound)
    (filling : building.Filling nesting bound) {separator : Token}
    (hasElement : bound.element.isSome) (divides : bound.split = some separator.value) :
    building.take nesting .none separator = { building with top := building.top.next } := by
  have stays : building.outer = [] ∨ building.top.bound.closing ≠ separator.value := by
    refine filling.declared.imp_right ?_
    rintro ⟨start, opens⟩ closes
    refine distinct.closingUndivided start bound opens ?_
    rw [divides, ← closes, filling.top]
  have splits : building.top.isSplitBy separator.value := by
    simp [Frame.isSplitBy, filling.top, filling.level, hasElement, divides]
  rw [take_separator (plain.splitUnopened _ divides) stays splits, Frame.split_none]

end

mutual

/-- Taking the tokens of an item puts its tree behind what is there.

Proof: a nested bound is opened, filled with its content and closed, and the bound
around it does not divide its elements there. -/
theorem foldl_item {nesting : Nesting} {bound : Bound} {building : Building Unit}
    (distinct : nesting.Distinct) (plain : nesting.Plain bound)
    (filling : building.Filling nesting bound) (item : Item) (fits : item.Fits nesting bound) :
    item.tokens.foldl (take nesting .none) building =
      { building with top := building.top.push item.tree } := by
  cases item with
  | leaf token => simpa [Item.tokens, Item.tree] using filling.take_leaf_eq fits
  | nested inner opener content closer =>
    obtain ⟨opens, closes, contentFits⟩ := fits
    have filled := foldl_content distinct (distinct.bounds _ _ opens)
      (Filling.start building opens) content contentFits
    have unopened : nesting.opened? closer.value = none := by
      rw [closes]
      exact distinct.closingUnopened _ _ opens
    have unflagged : building.top.bound.endIsParentSplit = false := by
      rw [filling.top]
      exact plain.unflagged
    rw [Item.tokens, List.foldl_cons, take_start opens, List.foldl_append, filled,
      List.foldl_cons, List.foldl_nil,
      take_closing unopened (by simp) (by simp [closes, Frame.start]), close_none rfl unflagged,
      Frame.branch_fill nesting false _ content (Frame.start_fresh _ _) contentFits (by simp)]
    rfl

/-- Taking the tokens of a content fills the innermost bound with it. Each separator finishes the
element in progress, and the next items go into the one behind it. -/
theorem foldl_content {nesting : Nesting} {bound : Bound} {building : Building Unit}
    (distinct : nesting.Distinct) (plain : nesting.Plain bound)
    (filling : building.Filling nesting bound) (content : Content)
    (fits : content.Fits nesting bound) :
    content.tokens.foldl (take nesting .none) building =
      { building with top := building.top.fill content } := by
  cases content with
  | last items => exact foldl_items distinct plain filling items fits
  | more items separator others =>
    obtain ⟨hasElement, divides, itemsFit, othersFit⟩ := fits
    have between := filling.changed (Frame.pushAll_bound _ (itemTrees items))
      (Frame.pushAll_current_isSome _ _)
    have divided := between.changed (Frame.next_bound _) (Frame.next_current_isSome _)
    rw [Content.tokens, List.foldl_append, foldl_items distinct plain filling items itemsFit,
      List.foldl_cons, between.take_separator_eq distinct plain hasElement divides,
      foldl_content distinct plain divided others othersFit]
    rfl

/-- Taking the tokens of items puts their trees behind what is there. By recursion on the items,
which are taken one after the other. -/
theorem foldl_items {nesting : Nesting} {bound : Bound} {building : Building Unit}
    (distinct : nesting.Distinct) (plain : nesting.Plain bound)
    (filling : building.Filling nesting bound) (items : List Item)
    (fits : itemsFit nesting bound items) :
    (itemTokens items).foldl (take nesting .none) building =
      { building with top := building.top.pushAll (itemTrees items) } := by
  cases items with
  | nil => rfl
  | cons item items =>
    obtain ⟨itemFits, itemsFit⟩ := fits
    have pushed := filling.changed (Frame.push_bound _ item.tree)
      (Frame.push_current_isSome _ _)
    rw [itemTokens, List.foldl_append, foldl_item distinct plain filling item itemFits,
      foldl_items distinct plain pushed items itemsFit]
    rfl

end

end Building

namespace Nesting

/-- Building the tokens of a document reports nothing and gives the tree of the document,
less a last element of the root that is empty and not the only one. -/
theorem buildWith_none_tokens (nesting : Nesting) (distinct : nesting.Distinct)
    (document : Content) (fits : document.Fits nesting nesting.root) :
    nesting.buildWith .none () document.tokens =
      { value := .branch nesting.root.name (document.pruned.trees nesting.root.element)
        diagnostics := []
        state := () } := by
  have begun : Building.Filling nesting nesting.root
      { top := .start nesting.root none, outer := [], ledger := { state := () } } :=
    ⟨rfl, by simp [Frame.start], .inl rfl⟩
  have filled := Building.foldl_content distinct distinct.root begun document fits
  have finished := Frame.branch_fill nesting true (.start nesting.root none) document
    (Frame.start_fresh _ _) fits (fun _ => .inl rfl)
  simp only [buildWith, filled, Building.finish, Frame.finish_none, finished]
  simp [Frame.start]

/-- A block between `begin` and `end`, whose statements semicolons divide. -/
def block : Bound :=
  { name := "block", start := "begin", closing := "end", element := some "statement"
    split := some ";" }

/-- A list in brackets, whose contents are not divided. -/
def list : Bound := { name := "list", start := "[", closing := "]" }

/-- Lines of blocks and lists. -/
def lines : Nesting where
  root := { name := "program", element := some "line", split := some "newline" }
  bounds := (Dictionary.empty.insert "begin" block).insert "[" list

/-- There are just two starts among the declared bounds of lines. -/
theorem lines_opened? (value : String) :
    lines.opened? value =
      if value = "[" then some list else if value = "begin" then some block else none := by
  simp only [opened?, lines, Dictionary.find?_insert]
  rfl

/-- What is opened in lines is a list or a block. -/
theorem lines_declared {start : String} {bound : Bound}
    (opens : lines.opened? start = some bound) : bound = list ∨ bound = block := by
  rw [lines_opened?] at opens
  split at opens
  · exact .inl (Option.some.inj opens).symm
  · split at opens
    · exact .inr (Option.some.inj opens).symm
    · exact absurd opens (by simp)

/-- The tokens of lines can be told apart. What is demanded of the root and of bounds is checked for
the list and for the block. -/
theorem lines_distinct : lines.Distinct := by
  refine ⟨⟨rfl, ?_⟩, ?_, ?_, ?_⟩
  · intro split divides
    obtain rfl : split = "newline" := (Option.some.inj divides).symm
    simp [lines_opened?]
  · intro start bound opens
    rcases lines_declared opens with rfl | rfl
    · exact ⟨rfl, by simp [list]⟩
    · exact ⟨rfl, by simp [lines_opened?, block]⟩
  · intro start bound opens
    rcases lines_declared opens with rfl | rfl <;> simp [lines_opened?, list, block]
  · intro start bound opens
    rcases lines_declared opens with rfl | rfl <;> simp [list, block]

/-- A block behind a name, with a semicolon in a list, and an empty last statement; the
last line is empty too. -/
def blockInLine : Content :=
  .more
    [.leaf { value := "a" },
      .nested block { value := "begin" }
        (.more [.nested list { value := "[" } (.last [.leaf { value := ";" }]) { value := "]" }]
          { value := ";" } (.last []))
        { value := "end" }]
    { value := "newline" } (.last [])

/-- The document of the block in a line can be written in lines. -/
theorem blockInLine_fits : blockInLine.Fits lines lines.root := by
  simp only [blockInLine, Content.Fits, itemsFit, Item.Fits]
  decide

/-- The empty last statement is kept and the empty last line is not. This is the general theorem for
that document. -/
theorem blockInLine_built :
    lines.Distinct ∧ blockInLine.Fits lines lines.root ∧
      lines.buildWith .none () blockInLine.tokens =
        { value := .branch "program" [.branch "line" [.leaf { value := "a" }, .branch "block"
            [.branch "statement" [.branch "list" [.leaf { value := ";" }]],
              .branch "statement" []]]]
          diagnostics := []
          state := () } :=
  ⟨lines_distinct, blockInLine_fits,
    buildWith_none_tokens lines lines_distinct blockInLine blockInLine_fits⟩

end Nesting

end Parlance
