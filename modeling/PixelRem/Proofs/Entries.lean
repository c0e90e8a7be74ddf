import Mathlib
import PixelRem.Sheet.Directive

/-!
# Items with their neighbours

The entries of a block are read in one go that skips the comments which direct a
declaration.  What becomes of an item nevertheless depends on its two neighbours only: a
comment is skipped because of the declaration before it, and a declaration is directed by
the comment behind it.  `entries_eq_filterMap` says so: the entries are found by looking at
each item in its place.

Facts about a whole block then follow from facts about a single item in its place.  What
does not look at comments sees the declarations of the block one by one
(`filterMap_entries_declared`), and what does not look at declarations sees the comments that
direct nothing (`filterMap_entries_undirected`).
-/

namespace PixelRem

open Css

/-- An item with the items right before and behind it. -/
structure Placed where
  before : Option Item
  item : Item
  behind : Option Item
  deriving DecidableEq, Repr

/-- The items of a list in their places, where `before` stands before the first. -/
def placedFrom : (before : Option Item) → List Item → List Placed
  | _, [] => []
  | before, item :: items => ⟨before, item, items.head?⟩ :: placedFrom (some item) items

/-- The items of a list in their places. -/
def placed (items : List Item) : List Placed :=
  placedFrom none items

/-- A declaration with the item right behind it. -/
structure Declared where
  property : Text
  value : Text
  behind : Option Item
  deriving DecidableEq, Repr

/-- The declaration of an item, if it is one. -/
def Placed.declared? (p : Placed) : Option Declared :=
  match p.item with
  | .declaration property value => some ⟨property, value, p.behind⟩
  | .comment _ => none

/-- The declarations of a list of items, in order. -/
def declared (items : List Item) : List Declared :=
  (placed items).filterMap Placed.declared?

/-- The property and the value of a declaration. -/
def Css.Item.declaration? : Item → Option (Text × Text)
  | .declaration property value => some (property, value)
  | .comment _ => none

/-- The text of a comment. -/
def Css.Item.comment? : Item → Option Text
  | .declaration _ _ => none
  | .comment text => some text

namespace Converter

/-- Whether an item directs the item before it: it is a comment with one of the two
directing words, right behind a declaration with a pixel length. -/
def directs (c : Converter) : (before item : Option Item) → Bool
  | some (.declaration _ value), some (.comment text) =>
    hasPixels value &&
      (Text.trim text == c.settings.keepComment || Text.trim text == c.settings.forcePxComment)
  | _, _ => false

/-- The text of a comment that directs nothing. -/
def undirected? (c : Converter) (p : Placed) : Option Text :=
  if c.directs p.before (some p.item) then none else p.item.comment?

/-- The comments of a list of items that direct nothing, in order. -/
def undirected (c : Converter) (items : List Item) : List Text :=
  (placed items).filterMap c.undirected?

/-- The entry of a declaration. -/
def entryOf (c : Converter) (d : Declared) : Entry :=
  if hasPixels d.value then .length d.property d.value (c.directiveOf d.behind)
  else .plain (.declaration d.property d.value)

/-- The entry of an item in its place.  A comment that directs has none. -/
def entryAt (c : Converter) (p : Placed) : Option Entry :=
  (p.declared?.map c.entryOf).or ((c.undirected? p).map fun text => .plain (.comment text))

end Converter

/-! ## Entries by place -/

section Entries

variable {c : Converter}

theorem undirected?_declaration (before : Option Item) (property value : Text)
    (behind : Option Item) :
    c.undirected? ⟨before, .declaration property value, behind⟩ = none := by
  rw [Converter.undirected?]
  exact ite_self none

theorem entryAt_declaration (before : Option Item) (property value : Text)
    (behind : Option Item) :
    c.entryAt ⟨before, .declaration property value, behind⟩ =
      some (c.entryOf ⟨property, value, behind⟩) := rfl

theorem directiveOf_comment_ne_none (text : Text) :
    (c.directiveOf (some (.comment text)) != .none) =
      (Text.trim text == c.settings.keepComment ||
        Text.trim text == c.settings.forcePxComment) := by
  simp only [Converter.directiveOf]
  split_ifs with hkeep hforce
  · simp [hkeep]
  · simp [hforce]
  · simp [hkeep, hforce]

theorem directs_declaration {property value : Text} (hpixels : hasPixels value = true)
    (next : Option Item) :
    c.directs (some (.declaration property value)) next = (c.directiveOf next != .none) := by
  cases next with
  | none => rfl
  | some item =>
    cases item with
    | declaration => rfl
    | comment text => rw [directiveOf_comment_ne_none, Converter.directs, hpixels, Bool.true_and]

theorem directs_plain {property value : Text} (hpixels : hasPixels value = false)
    (next : Option Item) : c.directs (some (.declaration property value)) next = false := by
  cases next with
  | none => rfl
  | some item =>
    cases item with
    | declaration => rfl
    | comment text => rw [Converter.directs, hpixels, Bool.false_and]

theorem directs_comment (text : Text) (next : Option Item) :
    c.directs (some (.comment text)) next = false := rfl

theorem entriesFrom_eq_filterMap (c : Converter) (before : Option Item) (items : List Item) :
    c.entriesFrom (c.directs before items.head?) items =
      (placedFrom before items).filterMap c.entryAt := by
  induction items generalizing before with
  | nil =>
    rw [placedFrom, List.filterMap_nil]
    cases c.directs before none <;> rfl
  | cons item items ih =>
    have hrest := ih (some item)
    rw [placedFrom, List.filterMap_cons, ← hrest, List.head?_cons]
    cases item with
    | comment text =>
      rw [directs_comment]
      cases hdirects : c.directs before (some (.comment text)) with
      | true =>
        have hentry : c.entryAt ⟨before, .comment text, items.head?⟩ = none := by
          simp [Converter.entryAt, Placed.declared?, Converter.undirected?, hdirects]
        rw [hentry]
        rfl
      | false =>
        have hentry : c.entryAt ⟨before, .comment text, items.head?⟩ =
            some (.plain (.comment text)) := by
          simp [Converter.entryAt, Placed.declared?, Converter.undirected?, hdirects,
            Item.comment?]
        rw [hentry]
        rfl
    | declaration property value =>
      have hdirects : c.directs before (some (.declaration property value)) = false := by
        cases before with
        | none => rfl
        | some item => cases item <;> rfl
      rw [hdirects, entryAt_declaration, Converter.entriesFrom, Converter.entryOf]
      cases hpixels : hasPixels value with
      | true => rw [if_pos rfl, if_pos rfl, directs_declaration hpixels]
      | false => rw [if_neg (by decide), if_neg (by decide), directs_plain hpixels]

/-- The entries of a block are found item by item, each in its place. -/
theorem entries_eq_filterMap (c : Converter) (items : List Item) :
    c.entries items = (placed items).filterMap c.entryAt :=
  entriesFrom_eq_filterMap c none items

variable {β : Type} {f : Entry → Option β}

theorem filterMap_entries_declared (hcomment : ∀ text, f (.plain (.comment text)) = none)
    (items : List Item) :
    (c.entries items).filterMap f = (declared items).filterMap fun d => f (c.entryOf d) := by
  rw [entries_eq_filterMap, declared, List.filterMap_filterMap, List.filterMap_filterMap]
  congr 1
  funext p
  obtain ⟨before, item, behind⟩ := p
  cases item with
  | declaration => rfl
  | comment text =>
    simp only [Converter.entryAt, Placed.declared?, Converter.undirected?, Option.map_none,
      Option.none_or, Option.bind_none]
    split_ifs
    · rfl
    · exact hcomment text

theorem filter_entries_declared {p : Entry → Bool}
    (hcomment : ∀ text, p (.plain (.comment text)) = false) (items : List Item) :
    (c.entries items).filter p = ((declared items).map c.entryOf).filter p := by
  rw [← List.filterMap_eq_filter, List.filterMap_map]
  apply filterMap_entries_declared
  intro text
  simp [hcomment text]

theorem filterMap_entries_undirected (hdeclared : ∀ d, f (c.entryOf d) = none)
    (items : List Item) :
    (c.entries items).filterMap f =
      (c.undirected items).filterMap fun text => f (.plain (.comment text)) := by
  rw [entries_eq_filterMap, Converter.undirected, List.filterMap_filterMap,
    List.filterMap_filterMap]
  congr 1
  funext p
  obtain ⟨before, item, behind⟩ := p
  cases item with
  | declaration property value =>
    rw [undirected?_declaration, Option.bind_none]
    exact hdeclared ⟨property, value, behind⟩
  | comment text =>
    simp only [Converter.entryAt, Placed.declared?, Converter.undirected?, Option.map_none,
      Option.none_or]
    split_ifs <;> rfl

theorem directiveOf_head?_append (xs : List Item) (property value : Text) (rest : List Item) :
    c.directiveOf (xs ++ .declaration property value :: rest).head? = c.directiveOf xs.head? := by
  cases xs <;> rfl

/-- A declaration directs nothing, so the entries before it do not depend on it. -/
theorem entriesFrom_append_declaration {directed : Bool} {xs : List Item}
    (hdirected : directed = true → xs ≠ []) (property value : Text) (rest : List Item) :
    c.entriesFrom directed (xs ++ .declaration property value :: rest) =
      c.entriesFrom directed xs ++ c.entries (.declaration property value :: rest) := by
  induction xs generalizing directed with
  | nil =>
    cases directed with
    | false => rfl
    | true => exact absurd rfl (hdirected rfl)
  | cons item xs ih =>
    have hplain : c.entriesFrom false (xs ++ .declaration property value :: rest) =
        c.entriesFrom false xs ++ c.entries (.declaration property value :: rest) :=
      ih (by simp)
    cases directed with
    | true =>
      rw [List.cons_append, Converter.entriesFrom, hplain]
      rfl
    | false =>
      cases item with
      | comment text =>
        rw [List.cons_append, Converter.entriesFrom, hplain]
        rfl
      | declaration property' value' =>
        rw [List.cons_append, Converter.entriesFrom, Converter.entriesFrom]
        split_ifs
        · have hnext : (c.directiveOf xs.head? != .none) = true → xs ≠ [] := by
            rintro hsome rfl
            exact absurd (show (Directive.none != .none) = true from hsome) (by decide)
          simp only [directiveOf_head?_append, ih hnext, List.cons_append]
        · rw [hplain, List.cons_append]

/-- A directed declaration is one entry with its comment, and apart from what stands around it. -/
theorem entries_directed {property value text : Text} (hpixels : hasPixels value = true)
    (hdirective : c.directiveOf (some (.comment text)) ≠ .none) (before behind : List Item) :
    c.entries (before ++ .declaration property value :: .comment text :: behind) =
      c.entries before ++
        .length property value (c.directiveOf (some (.comment text))) :: c.entries behind := by
  have hskip : (c.directiveOf (some (.comment text)) != .none) = true := by
    simpa using hdirective
  have hfirst : c.entries (.declaration property value :: .comment text :: behind) =
      .length property value (c.directiveOf (some (.comment text))) :: c.entries behind := by
    rw [Converter.entries, Converter.entriesFrom, if_pos hpixels, List.head?_cons]
    simp only [hskip]
    rfl
  rw [Converter.entries, entriesFrom_append_declaration (by simp), hfirst]
  rfl

theorem entries_kept {property value text : Text} (hpixels : hasPixels value = true)
    (hkeep : Text.trim text = c.settings.keepComment) (before behind : List Item) :
    c.entries (before ++ .declaration property value :: .comment text :: behind) =
      c.entries before ++ .length property value .keep :: c.entries behind := by
  have hdirective : c.directiveOf (some (.comment text)) = .keep := by
    rw [Converter.directiveOf]
    exact if_pos hkeep
  rw [entries_directed hpixels (by rw [hdirective]; decide), hdirective]

end Entries

end PixelRem
