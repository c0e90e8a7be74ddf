import Mathlib
import PixelRem.Proofs.PassAgreement
import PixelRem.Proofs.Visits

/-!
# What the pass to a ratio keeps

The pass to another ratio changes values and nothing else.  Every rule stays where it is,
with its kind, its selectors and its texts.  In a block every item stays in its place but
the comments that direct a declaration, and a declaration keeps its property.  Its value
can change only if it has a pixel length and is not kept.

`scaleItems_eq_map` says what becomes of each item of a block, `keepsItems_scaleItems` reads
the parts of the block off it, and the walk carries them to every depth of the tree.
-/

namespace PixelRem

open Css

namespace Converter

/-- Whether the value of a declaration can change: it has a pixel length and no keep comment
behind it. -/
def mayScale (c : Converter) (d : Declared) : Bool :=
  hasPixels d.value && c.directiveOf d.behind != .keep

/-- What an item becomes that the pass leaves in its block. -/
inductive Stays (c : Converter) : Placed → Item → Prop where
  | comment (before : Option Item) (text : Text) (behind : Option Item) :
      c.Stays ⟨before, .comment text, behind⟩ (.comment text)
  | declaration (before : Option Item) (property value : Text) (behind : Option Item)
      (value' : Text) (hvalue : value' ≠ value → c.mayScale ⟨property, value, behind⟩ = true) :
      c.Stays ⟨before, .declaration property value, behind⟩ (.declaration property value')

/-- The items of a list that direct nothing, in their places. -/
def undirecting (c : Converter) (items : List Item) : List Placed :=
  (placed items).filter fun p => !c.directs p.before (some p.item)

/-- The items `out` are what is left of `items` when the comments that direct a declaration
are taken out and values change. -/
structure KeepsItems (c : Converter) (items out : List Item) : Prop where
  inPlace : List.Forall₂ c.Stays (c.undirecting items) out
  declarations : List.Forall₂
    (fun d d' => d'.1 = d.property ∧ (d'.2 ≠ d.value → c.mayScale d = true))
    (declared items) (out.filterMap Item.declaration?)
  comments : out.filterMap Item.comment? = c.undirected items
  eq_nil : out = [] → items = []

/-- The item that an item in its place becomes at a ratio. -/
def scaledAt (c : Converter) (dpr : Decimal) (p : Placed) : Item :=
  match p.item with
  | .declaration property value =>
    .declaration property (c.scaledValue dpr ⟨property, value, p.behind⟩)
  | .comment text => .comment text

end Converter

/-! ## The items of a block -/

section Items

variable {c : Converter} {dpr : Decimal}

theorem mayScale_of_scaledValue_ne {d : Declared} (hvalue : c.scaledValue dpr d ≠ d.value) :
    c.mayScale d = true := by
  by_contra hkept
  rw [Converter.scaledValue] at hvalue
  exact hvalue (if_neg hkept)

theorem stays_scaledAt (p : Placed) : c.Stays p (c.scaledAt dpr p) := by
  obtain ⟨before, item, behind⟩ := p
  cases item with
  | comment text => exact .comment before text behind
  | declaration property value =>
    exact .declaration before property value behind _ mayScale_of_scaledValue_ne

/-- A declaration directs nothing. -/
theorem directs_some_declaration (before : Option Item) (property value : Text) :
    c.directs before (some (.declaration property value)) = false := by
  cases before with
  | none => rfl
  | some item => cases item <;> rfl

theorem map_scaledItem_entryAt (p : Placed) :
    (c.entryAt p).map (c.scaledItem dpr) =
      if c.directs p.before (some p.item) then none else some (c.scaledAt dpr p) := by
  obtain ⟨before, item, behind⟩ := p
  cases item with
  | declaration property value =>
    rw [entryAt_declaration, Option.map_some, scaledItem_entryOf, directs_some_declaration]
    rfl
  | comment text =>
    simp only [Converter.entryAt, Placed.declared?, Converter.undirected?, Option.map_none,
      Option.none_or]
    split_ifs <;> rfl

/-- The items of a block at a ratio, one for each item that directs nothing. -/
theorem scaleItems_eq_map (items : List Item) :
    (c.scaleItems dpr items).1 = (c.undirecting items).map (c.scaledAt dpr) := by
  have hitems : (c.scaleItems dpr items).1 = (c.entries items).map (c.scaledItem dpr) := rfl
  rw [hitems, entries_eq_filterMap, List.map_filterMap, Converter.undirecting,
    ← List.filterMap_eq_map, List.filterMap_filter]
  congr 1
  funext p
  rw [map_scaledItem_entryAt]
  cases c.directs p.before (some p.item) <;> rfl

theorem comments_scaleItems (items : List Item) :
    (c.scaleItems dpr items).1.filterMap Item.comment? = c.undirected items := by
  have hitems : (c.scaleItems dpr items).1 = (c.entries items).map (c.scaledItem dpr) := rfl
  rw [hitems, List.filterMap_map, filterMap_entries_undirected]
  · exact List.filterMap_some
  · intro d
    rw [Function.comp_apply, scaledItem_entryOf]
    rfl

/-- Nothing stands before the first item, so it directs nothing and stays. -/
theorem undirecting_cons (item : Item) (items : List Item) :
    c.undirecting (item :: items) ≠ [] := by
  have hfirst : c.directs none (some item) = false := rfl
  rw [Converter.undirecting, placed, placedFrom, List.filter_cons, hfirst]
  exact List.cons_ne_nil _ _

theorem keepsItems_scaleItems (items : List Item) :
    c.KeepsItems items (c.scaleItems dpr items).1 := by
  refine ⟨?_, ?_, comments_scaleItems items, fun hnil => ?_⟩
  · rw [scaleItems_eq_map, List.forall₂_map_right_iff, List.forall₂_same]
    exact fun p _ => stays_scaledAt p
  · rw [declarations_scaleItems, List.forall₂_map_right_iff, List.forall₂_same]
    exact fun d _ => ⟨rfl, mayScale_of_scaledValue_ne⟩
  · cases items with
    | nil => rfl
    | cons item items =>
      rw [scaleItems_eq_map, List.map_eq_nil_iff] at hnil
      exact absurd hnil (undirecting_cons item items)

end Items

/-! ## The tree -/

/-- The pass to a ratio gives the same tree: at every depth the same rules in the same order,
and in place of each block one of the same kind with the same selectors, whose items are those
of the block without the comments that direct a declaration.  A value changes only in a
declaration with a pixel length that is not kept, and only a block without items is left
without items. -/
theorem scaleRules_keepsShape (c : Converter) (dpr : Decimal) (rules : List Rule) :
    Walked (fun kind block _ out => ∃ items, out = [kind.rule ⟨block.selectors, items⟩] ∧
        c.KeepsItems block.items items)
      false rules (c.scaleRules dpr rules).1 := by
  rw [Converter.scaleRules]
  apply walked_walkRules
  intro kind block inKeyframes s
  exact ⟨(c.scaleItems dpr block.items).1, rfl, keepsItems_scaleItems block.items⟩

end PixelRem
