import Mathlib
import PixelRem.Sheet.Walk

/-!
# What a walk does to a rule tree

`Walked R` relates a rule tree to one that has, in place of each style rule and
keyframe, rules that `R` relates to it.  All else is the same in both trees.  A walk
with a visitor gives a related tree as soon as `R` holds of every single visit
(`walked_walkRules`), so a fact about a pass is proved for one block and then holds at
every depth.
-/

namespace PixelRem.Css

/-- A rule that a walk passes on as it is. -/
def Rule.isLeaf : Rule → Bool
  | .comment _ => true
  | .other _ => true
  | .unknown _ _ => true
  | _ => false

/-- The second list has rules related by `R` in place of each style rule and keyframe of
the first.  The flag says whether the nearest block around the rules is an animation. -/
inductive Walked (R : BlockKind → Block → Bool → List Rule → Prop) :
    Bool → List Rule → List Rule → Prop where
  | nil {inKeyframes : Bool} : Walked R inKeyframes [] []
  | block {inKeyframes : Bool} {kind : BlockKind} {block : Block} {first rules out : List Rule}
      (hfirst : R kind block inKeyframes first) (tail : Walked R inKeyframes rules out) :
      Walked R inKeyframes (kind.rule block :: rules) (first ++ out)
  | media {inKeyframes : Bool} {pre : Text} {inner inner' rules out : List Rule}
      (hinner : Walked R false inner inner') (tail : Walked R inKeyframes rules out) :
      Walked R inKeyframes (.media pre inner :: rules) (.media pre inner' :: out)
  | keyframes {inKeyframes : Bool} {vendor name : Text} {inner inner' rules out : List Rule}
      (hinner : Walked R true inner inner') (tail : Walked R inKeyframes rules out) :
      Walked R inKeyframes (.keyframes vendor name inner :: rules)
        (.keyframes vendor name inner' :: out)
  | leaf {inKeyframes : Bool} {rule : Rule} {rules out : List Rule} (hleaf : rule.isLeaf = true)
      (tail : Walked R inKeyframes rules out) :
      Walked R inKeyframes (rule :: rules) (rule :: out)

section State

variable {σ : Type} {R : BlockKind → Block → Bool → List Rule → Prop}
  {visit : BlockKind → Block → Bool → StateM σ (List Rule)}

mutual

theorem walked_walkRule (hvisit : ∀ kind block inKeyframes s,
      R kind block inKeyframes ((visit kind block inKeyframes).run s).1)
    (inKeyframes : Bool) {rules out : List Rule} (tail : Walked R inKeyframes rules out) (s : σ) :
    (rule : Rule) → Walked R inKeyframes (rule :: rules)
      (((walkRule visit inKeyframes rule).run s).1 ++ out)
  | .style block => by
    rw [walkRule]
    exact .block (hvisit .style block inKeyframes s) tail
  | .keyframe block => by
    rw [walkRule]
    exact .block (hvisit .keyframe block inKeyframes s) tail
  | .media pre inner => by
    rw [walkRule]
    exact .media (walked_walkRules hvisit false s inner) tail
  | .keyframes vendor name inner => by
    rw [walkRule]
    exact .keyframes (walked_walkRules hvisit true s inner) tail
  | .comment text => by
    rw [walkRule]
    exact .leaf rfl tail
  | .other text => by
    rw [walkRule]
    exact .leaf rfl tail
  | .unknown code text => by
    rw [walkRule]
    exact .leaf rfl tail

/-- A walk relates a tree to its result if each visit relates the block to its rules. -/
theorem walked_walkRules (hvisit : ∀ kind block inKeyframes s,
      R kind block inKeyframes ((visit kind block inKeyframes).run s).1)
    (inKeyframes : Bool) (s : σ) : (rules : List Rule) →
    Walked R inKeyframes rules ((walkRules visit inKeyframes rules).run s).1
  | [] => by
    rw [walkRules]
    exact .nil
  | rule :: rules => by
    rw [walkRules]
    exact walked_walkRule hvisit inKeyframes (walked_walkRules hvisit inKeyframes _ rules) s rule

end

/-! ## Walks in parts -/

mutual

theorem walkRule_run_fst (hvisit : ∀ kind block inKeyframes s s',
      ((visit kind block inKeyframes).run s).1 = ((visit kind block inKeyframes).run s').1)
    (inKeyframes : Bool) (s s' : σ) : (rule : Rule) →
    ((walkRule visit inKeyframes rule).run s).1 = ((walkRule visit inKeyframes rule).run s').1
  | .style block => by
    rw [walkRule]
    exact hvisit .style block inKeyframes s s'
  | .keyframe block => by
    rw [walkRule]
    exact hvisit .keyframe block inKeyframes s s'
  | .media pre inner => by
    rw [walkRule]
    exact congrArg (fun rules => [Rule.media pre rules]) (walkRules_run_fst hvisit false s s' inner)
  | .keyframes vendor name inner => by
    rw [walkRule]
    exact congrArg (fun rules => [Rule.keyframes vendor name rules])
      (walkRules_run_fst hvisit true s s' inner)
  | .comment text => by
    rw [walkRule]
    rfl
  | .other text => by
    rw [walkRule]
    rfl
  | .unknown code text => by
    rw [walkRule]
    rfl

/-- A walk whose visits give the same rules in every state does so too. -/
theorem walkRules_run_fst (hvisit : ∀ kind block inKeyframes s s',
      ((visit kind block inKeyframes).run s).1 = ((visit kind block inKeyframes).run s').1)
    (inKeyframes : Bool) (s s' : σ) : (rules : List Rule) →
    ((walkRules visit inKeyframes rules).run s).1 = ((walkRules visit inKeyframes rules).run s').1
  | [] => by
    rw [walkRules]
    rfl
  | rule :: rules => by
    rw [walkRules]
    exact congrArg₂ (· ++ ·) (walkRule_run_fst hvisit inKeyframes s s' rule)
      (walkRules_run_fst hvisit inKeyframes _ _ rules)

end

/-- Such a walk of two lists gives the rules of each. -/
theorem walkRules_run_append (hvisit : ∀ kind block inKeyframes s s',
      ((visit kind block inKeyframes).run s).1 = ((visit kind block inKeyframes).run s').1)
    (inKeyframes : Bool) (s : σ) (xs ys : List Rule) :
    ((walkRules visit inKeyframes (xs ++ ys)).run s).1 =
      ((walkRules visit inKeyframes xs).run s).1 ++ ((walkRules visit inKeyframes ys).run s).1 := by
  induction xs generalizing s with
  | nil =>
    rw [List.nil_append, walkRules]
    rfl
  | cons rule xs ih =>
    have hrest := ih ((walkRule visit inKeyframes rule).run s).2
    rw [walkRules_run_fst hvisit inKeyframes _ s ys] at hrest
    rw [List.cons_append, walkRules, walkRules]
    calc ((walkRule visit inKeyframes rule).run s).1 ++
          ((walkRules visit inKeyframes (xs ++ ys)).run
            ((walkRule visit inKeyframes rule).run s).2).1
        = ((walkRule visit inKeyframes rule).run s).1 ++
            (((walkRules visit inKeyframes xs).run ((walkRule visit inKeyframes rule).run s).2).1 ++
              ((walkRules visit inKeyframes ys).run s).1) := by rw [hrest]
      _ = _ := (List.append_assoc _ _ _).symm

end State

end PixelRem.Css
