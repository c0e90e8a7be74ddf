import Mathlib
import PixelRem.Proofs.Visits

/-!
# Document order

A place in a rule tree is a path: the number of a rule among its siblings, for each level from
the outside in.  Paths are ordered as lists of numbers, which is the order of the document.  What
stands at a place and around it is read off the tree (`ruleAt?`, `rulesAround`) without any walk.

There are three groups.

* The visited blocks.  `places` lists the places of all style rules and keyframes in strict
  order, and what `visits` says about a block is what the tree says about its place
  (`map_visitAt?_places`).
* The walk as a whole.  In every lawful monad a walk is one call for each block in document
  order, and then the tree with the results in place of the blocks (`walkRules_eq_mapM`).
* Walks one after the other.  If the effects of two visitors do not depend on each other, two
  walks are one (`walkRules_bind_walkRules`).  If they do, the two can differ: a visitor may
  drop what the other has not yet counted (`walkRules_two_walks_differ`).
-/

namespace PixelRem.Css

/-! ## Places in a tree -/

namespace Rule

/-- The rules right below a rule.  Only media queries and animations have some. -/
def children : Rule → List Rule
  | .media _ rules => rules
  | .keyframes _ _ rules => rules
  | _ => []

/-- The kind and the block of a style rule or keyframe. -/
def block? : Rule → Option (BlockKind × Block)
  | .style block => some (.style, block)
  | .keyframe block => some (.keyframe, block)
  | _ => none

/-- Whether a media query or an animation is the latter. -/
def isAnimation? : Rule → Option Bool
  | .media _ _ => some false
  | .keyframes _ _ _ => some true
  | _ => none

/-- The rule at a place below a rule, which itself stands at the empty place. -/
def at? : Rule → List Nat → Option Rule
  | rule, [] => some rule
  | rule, i :: place => rule.children[i]?.bind fun child => child.at? place

/-- The rules around a place below a rule, from the outside in. -/
def around : Rule → List Nat → List Rule
  | _, [] => []
  | rule, i :: place => rule :: rule.children[i]?.elim [] fun child => child.around place

end Rule

/-- The rule at a place of a tree. -/
def ruleAt? (rules : List Rule) : List Nat → Option Rule
  | [] => none
  | i :: place => rules[i]?.bind fun rule => rule.at? place

/-- The rules around a place of a tree, from the outside in. -/
def rulesAround (rules : List Rule) : List Nat → List Rule
  | [] => []
  | i :: place => rules[i]?.elim [] fun rule => rule.around place

/-- Whether the nearest media query or animation among the rules around a place is an
animation.  The flag says it where there is none. -/
def nearestIsAnimation (inKeyframes : Bool) (around : List Rule) : Bool :=
  (around.filterMap Rule.isAnimation?).getLastD inKeyframes

/-- The block at a place of a tree, with what a visitor learns about it. -/
def visitAt? (inKeyframes : Bool) (rules : List Rule) (place : List Nat) : Option Visit :=
  ((ruleAt? rules place).bind Rule.block?).map fun b =>
    ⟨b.1, b.2, nearestIsAnimation inKeyframes (rulesAround rules place)⟩

/-- The same below a rule. -/
def Rule.visitAt? (inKeyframes : Bool) (rule : Rule) (place : List Nat) : Option Visit :=
  ((rule.at? place).bind Rule.block?).map fun b =>
    ⟨b.1, b.2, nearestIsAnimation inKeyframes (rule.around place)⟩

mutual

/-- The places of the blocks of one rule. -/
def Rule.places : Rule → List (List Nat)
  | .style _ => [[]]
  | .keyframe _ => [[]]
  | .media _ rules => placesFrom 0 rules
  | .keyframes _ _ rules => placesFrom 0 rules
  | .comment _ => []
  | .other _ => []
  | .unknown _ _ => []

/-- The places of the blocks of rules that are numbered from `first` on. -/
def placesFrom (first : Nat) : List Rule → List (List Nat)
  | [] => []
  | rule :: rules => rule.places.map (first :: ·) ++ placesFrom (first + 1) rules

end

/-- The places of the blocks of a tree in document order. -/
def places (rules : List Rule) : List (List Nat) :=
  placesFrom 0 rules

section Places

theorem mem_placesFrom {first : Nat} {rules : List Rule} {place : List Nat} :
    place ∈ placesFrom first rules ↔
      ∃ i rule rest, place = (first + i) :: rest ∧ rules[i]? = some rule ∧ rest ∈ rule.places := by
  induction rules generalizing first with
  | nil => simp [placesFrom]
  | cons head rules ih =>
    rw [placesFrom, List.mem_append, List.mem_map, ih]
    constructor
    · rintro (⟨rest, hrest, rfl⟩ | ⟨i, rule, rest, rfl, hrule, hrest⟩)
      · exact ⟨0, head, rest, rfl, rfl, hrest⟩
      · exact ⟨i + 1, rule, rest, by rw [Nat.add_right_comm, Nat.add_assoc], hrule, hrest⟩
    · rintro ⟨i, rule, rest, rfl, hrule, hrest⟩
      cases i with
      | zero =>
        obtain rfl : head = rule := Option.some.inj hrule
        exact .inl ⟨rest, hrest, rfl⟩
      | succ i =>
        exact .inr ⟨i, rule, rest, by rw [Nat.add_right_comm, Nat.add_assoc], hrule, hrest⟩

mutual

theorem Rule.pairwise_places : (rule : Rule) → rule.places.Pairwise (· < ·)
  | .style _ => List.pairwise_singleton _ _
  | .keyframe _ => List.pairwise_singleton _ _
  | .media _ inner => pairwise_placesFrom 0 inner
  | .keyframes _ _ inner => pairwise_placesFrom 0 inner
  | .comment _ => .nil
  | .other _ => .nil
  | .unknown _ _ => .nil

/-- The places are in strict order, so that none is listed twice. -/
theorem pairwise_placesFrom (first : Nat) : (rules : List Rule) →
    (placesFrom first rules).Pairwise (· < ·)
  | [] => .nil
  | rule :: rules => by
    rw [placesFrom, List.pairwise_append]
    refine ⟨?_, pairwise_placesFrom (first + 1) rules, ?_⟩
    · rw [List.pairwise_map]
      exact rule.pairwise_places.imp fun hlt => List.cons_lt_cons_self.mpr hlt
    · intro place hplace later hlater
      obtain ⟨rest, -, rfl⟩ := List.mem_map.mp hplace
      obtain ⟨i, -, rest', rfl, -⟩ := mem_placesFrom.mp hlater
      exact List.cons_lt_cons_iff.mpr (.inl (by omega))

end

end Places

/-! ## What is known about a place -/

section Context

variable {inKeyframes : Bool}

theorem nearestIsAnimation_cons (rule : Rule) (around : List Rule) :
    nearestIsAnimation inKeyframes (rule :: around) =
      nearestIsAnimation (rule.isAnimation?.getD inKeyframes) around := by
  unfold nearestIsAnimation
  cases hrule : rule.isAnimation? with
  | none => rw [List.filterMap_cons_none hrule, Option.getD_none]
  | some flag => rw [List.filterMap_cons_some hrule, List.getLastD_cons, Option.getD_some]

theorem visitAt?_cons (rules : List Rule) (i : Nat) (place : List Nat) :
    visitAt? inKeyframes rules (i :: place) =
      rules[i]?.bind fun rule => rule.visitAt? inKeyframes place := by
  unfold visitAt? Rule.visitAt?
  rw [ruleAt?, rulesAround]
  cases rules[i]? <;> rfl

/-- Below a media query or an animation only that counts for what is known. -/
theorem Rule.visitAt?_below {rule : Rule} {flag : Bool} (hflag : rule.isAnimation? = some flag)
    (place : List Nat) :
    rule.visitAt? inKeyframes place = Css.visitAt? flag rule.children place := by
  cases place with
  | nil =>
    have hblock : rule.block? = none := by
      cases rule with
      | media | keyframes => rfl
      | style | keyframe | comment | other | unknown => cases hflag
    simp [Rule.visitAt?, Css.visitAt?, Rule.at?, ruleAt?, hblock]
  | cons i place =>
    unfold Rule.visitAt? Css.visitAt?
    rw [Rule.at?, Rule.around, nearestIsAnimation_cons, hflag, ruleAt?, rulesAround]
    rfl

mutual

theorem Rule.map_visitAt?_places (inKeyframes : Bool) : (rule : Rule) →
    rule.places.map (rule.visitAt? inKeyframes) = (rule.visits inKeyframes).map some
  | .style block => rfl
  | .keyframe block => rfl
  | .media pre inner => by
    rw [Rule.places, Rule.visits, funext (Rule.visitAt?_below rfl)]
    exact map_visitAt?_placesFrom false [] inner
  | .keyframes vendor name inner => by
    rw [Rule.places, Rule.visits, funext (Rule.visitAt?_below rfl)]
    exact map_visitAt?_placesFrom true [] inner
  | .comment text => rfl
  | .other text => rfl
  | .unknown code text => rfl

theorem map_visitAt?_placesFrom (inKeyframes : Bool) (before : List Rule) : (rules : List Rule) →
    (placesFrom before.length rules).map (visitAt? inKeyframes (before ++ rules)) =
      (visits inKeyframes rules).map some
  | [] => rfl
  | rule :: rules => by
    have hrest := map_visitAt?_placesFrom inKeyframes (before ++ [rule]) rules
    have hrule : ∀ place, visitAt? inKeyframes (before ++ rule :: rules) (before.length :: place) =
        rule.visitAt? inKeyframes place := by
      intro place
      rw [visitAt?_cons, List.getElem?_append_right (Nat.le_refl _), Nat.sub_self,
        List.getElem?_cons_zero, Option.bind_some]
    rw [List.length_append, List.length_singleton, List.append_assoc, List.singleton_append]
      at hrest
    rw [placesFrom, visits, List.map_append, List.map_append, List.map_map, hrest,
      ← Rule.map_visitAt?_places inKeyframes rule]
    congr 1
    exact List.map_congr_left fun place _ => hrule place

end

/-- The visited blocks are what the tree has at the listed places, in their order. -/
theorem map_visitAt?_places (inKeyframes : Bool) (rules : List Rule) :
    (places rules).map (visitAt? inKeyframes rules) = (visits inKeyframes rules).map some :=
  map_visitAt?_placesFrom inKeyframes [] rules

end Context

/-! ## The walk as one call for each block -/

mutual

/-- A rule with lists of rules in place of its blocks. -/
def Rule.refill (outs : List (List Rule)) : Rule → List Rule
  | .style _ => outs.flatten
  | .keyframe _ => outs.flatten
  | .media pre rules => [.media pre (Css.refill outs rules)]
  | .keyframes vendor name rules => [.keyframes vendor name (Css.refill outs rules)]
  | .comment text => [.comment text]
  | .other text => [.other text]
  | .unknown code text => [.unknown code text]

/-- A tree with lists of rules in place of its blocks, in document order.  Each rule takes as
many lists as it has blocks. -/
def refill (outs : List (List Rule)) : List Rule → List Rule
  | [] => []
  | rule :: rules =>
    rule.refill (outs.take rule.places.length) ++ refill (outs.drop rule.places.length) rules

end

section Monadic

variable {m : Type → Type} [Monad m]

/-- The call of a visitor for a block. -/
def Visit.call (visit : BlockKind → Block → Bool → m (List Rule)) (v : Visit) : m (List Rule) :=
  visit v.kind v.block v.inKeyframes

variable [LawfulMonad m] {visit : BlockKind → Block → Bool → m (List Rule)}

/-- Behind a list of calls there is a result for each of them. -/
theorem mapM_bind_congr {α β γ : Type} {f : α → m β} {xs : List α} {k k' : List β → m γ}
    (hk : ∀ ys, ys.length = xs.length → k ys = k' ys) : (xs.mapM f >>= k) = (xs.mapM f >>= k') := by
  induction xs generalizing k k' with
  | nil => simpa using hk [] rfl
  | cons x xs ih =>
    simp only [List.mapM_cons, bind_assoc, pure_bind]
    refine bind_congr fun y => ih fun ys hys => hk (y :: ys) ?_
    rw [List.length_cons, List.length_cons, hys]

theorem Rule.length_visits (inKeyframes : Bool) (rule : Rule) :
    (rule.visits inKeyframes).length = rule.places.length := by
  have hlength := congrArg List.length (rule.map_visitAt?_places inKeyframes)
  rw [List.length_map, List.length_map] at hlength
  exact hlength.symm

mutual

theorem walkRule_eq_mapM (inKeyframes : Bool) : (rule : Rule) →
    walkRule visit inKeyframes rule = (do
      let outs ← (rule.visits inKeyframes).mapM (Visit.call visit)
      pure (rule.refill outs))
  | .style block => by
    simp [walkRule, Rule.visits, Rule.refill, Visit.call]
  | .keyframe block => by
    simp [walkRule, Rule.visits, Rule.refill, Visit.call]
  | .media pre inner => by
    simp [walkRule, Rule.visits, Rule.refill, walkRules_eq_mapM false inner]
  | .keyframes vendor name inner => by
    simp [walkRule, Rule.visits, Rule.refill, walkRules_eq_mapM true inner]
  | .comment text => by
    simp [walkRule, Rule.visits, Rule.refill]
  | .other text => by
    simp [walkRule, Rule.visits, Rule.refill]
  | .unknown code text => by
    simp [walkRule, Rule.visits, Rule.refill]

/-- A walk calls the visitor once for each block in document order and puts the results in place
of the blocks. -/
theorem walkRules_eq_mapM (inKeyframes : Bool) : (rules : List Rule) →
    walkRules visit inKeyframes rules = (do
      let outs ← (visits inKeyframes rules).mapM (Visit.call visit)
      pure (refill outs rules))
  | [] => by
    simp [walkRules, visits, refill]
  | rule :: rules => by
    rw [walkRules, visits, walkRule_eq_mapM inKeyframes rule, walkRules_eq_mapM inKeyframes rules,
      List.mapM_append]
    simp only [bind_assoc, pure_bind]
    refine mapM_bind_congr fun outs houts => bind_congr fun outs' => ?_
    rw [Rule.length_visits] at houts
    rw [refill, ← houts, List.take_left, List.drop_left]

end

/-- A walk of two lists is a walk of one and then of the other. -/
theorem walkRules_append (inKeyframes : Bool) (xs ys : List Rule) :
    walkRules visit inKeyframes (xs ++ ys) = (do
      let outs ← walkRules visit inKeyframes xs
      let outs' ← walkRules visit inKeyframes ys
      pure (outs ++ outs')) := by
  induction xs with
  | nil => simp [walkRules]
  | cons rule xs ih =>
    simp only [List.cons_append, walkRules, ih, bind_assoc, pure_bind, List.append_assoc]

mutual

theorem walkRule_same (inKeyframes : Bool) : (rule : Rule) →
    walkRule (m := m) (fun kind block _ => pure [kind.rule block]) inKeyframes rule = pure [rule]
  | .style block => rfl
  | .keyframe block => rfl
  | .media pre inner => by simp [walkRule, walkRules_same false inner]
  | .keyframes vendor name inner => by simp [walkRule, walkRules_same true inner]
  | .comment text => rfl
  | .other text => rfl
  | .unknown code text => rfl

/-- A visitor that gives back each rule alone leaves the tree as it is. -/
theorem walkRules_same (inKeyframes : Bool) : (rules : List Rule) →
    walkRules (m := m) (fun kind block _ => pure [kind.rule block]) inKeyframes rules = pure rules
  | [] => rfl
  | rule :: rules => by
    simp [walkRules, walkRule_same inKeyframes rule, walkRules_same inKeyframes rules]

end

end Monadic

/-! ## Two walks -/

section Commuting

variable {m : Type → Type} [Monad m] {α β γ : Type}

/-- Two actions give the same in either order. -/
def Commutes (x : m α) (y : m β) : Prop :=
  (do let a ← x; let b ← y; pure (a, b)) = (do let b ← y; let a ← x; pure (a, b))

variable [LawfulMonad m] {x : m α} {y : m β}

theorem Commutes.bind_bind (hcomm : Commutes x y) (k : α → β → m γ) :
    (x >>= fun a => y >>= fun b => k a b) = (y >>= fun b => x >>= fun a => k a b) := by
  have hpairs := congrArg (· >>= fun pair => k pair.1 pair.2) hcomm
  simpa only [bind_assoc, pure_bind] using hpairs

theorem Commutes.symm (hcomm : Commutes x y) : Commutes y x :=
  (hcomm.bind_bind fun a b => pure (b, a)).symm

theorem Commutes.pure_left (a : α) (y : m β) : Commutes (pure a) y := by
  simp [Commutes]

theorem Commutes.bind_left {k : α → m γ} (hcomm : Commutes x y) (hk : ∀ a, Commutes (k a) y) :
    Commutes (x >>= k) y := by
  unfold Commutes
  calc (do let c ← x >>= k; let b ← y; pure (c, b))
      = x >>= fun a => k a >>= fun c => y >>= fun b => pure (c, b) := by rw [bind_assoc]
    _ = x >>= fun a => y >>= fun b => k a >>= fun c => pure (c, b) :=
        bind_congr fun a => (hk a).bind_bind _
    _ = y >>= fun b => x >>= fun a => k a >>= fun c => pure (c, b) := hcomm.bind_bind _
    _ = (do let b ← y; let c ← x >>= k; pure (c, b)) := by simp only [bind_assoc]

variable {visit : BlockKind → Block → Bool → m (List Rule)}

mutual

theorem commutes_walkRule
    (hvisit : ∀ kind block inKeyframes, Commutes (visit kind block inKeyframes) y)
    (inKeyframes : Bool) : (rule : Rule) → Commutes (walkRule visit inKeyframes rule) y
  | .style block => hvisit .style block inKeyframes
  | .keyframe block => hvisit .keyframe block inKeyframes
  | .media _ inner =>
    (commutes_walkRules hvisit false inner).bind_left fun _ => .pure_left _ y
  | .keyframes _ _ inner =>
    (commutes_walkRules hvisit true inner).bind_left fun _ => .pure_left _ y
  | .comment _ => .pure_left _ y
  | .other _ => .pure_left _ y
  | .unknown _ _ => .pure_left _ y

/-- What commutes with every call of a visitor commutes with its walks. -/
theorem commutes_walkRules
    (hvisit : ∀ kind block inKeyframes, Commutes (visit kind block inKeyframes) y)
    (inKeyframes : Bool) : (rules : List Rule) → Commutes (walkRules visit inKeyframes rules) y
  | [] => .pure_left _ y
  | rule :: rules =>
    (commutes_walkRule hvisit inKeyframes rule).bind_left fun _ =>
      (commutes_walkRules hvisit inKeyframes rules).bind_left fun _ => .pure_left _ y

end

end Commuting

section Fusion

variable {m : Type → Type} [Monad m]

/-- A visitor that gives style rules and keyframes only. -/
def blocksOnly (made : BlockKind → Block → Bool → m (List (BlockKind × Block))) (kind : BlockKind)
    (block : Block) (inKeyframes : Bool) : m (List Rule) := do
  let blocks ← made kind block inKeyframes
  pure (blocks.map fun b => b.1.rule b.2)

/-- The visitor that hands what the first one makes of a block on to the second, one by one. -/
def handOn (made : BlockKind → Block → Bool → m (List (BlockKind × Block)))
    (visit : BlockKind → Block → Bool → m (List Rule)) (kind : BlockKind) (block : Block)
    (inKeyframes : Bool) : m (List Rule) := do
  let blocks ← made kind block inKeyframes
  let outs ← blocks.mapM fun b => visit b.1 b.2 inKeyframes
  pure outs.flatten

variable [LawfulMonad m] {made : BlockKind → Block → Bool → m (List (BlockKind × Block))}
  {visit : BlockKind → Block → Bool → m (List Rule)}

/-- A walk of blocks is one call after the other. -/
theorem walkRules_blocks (inKeyframes : Bool) (blocks : List (BlockKind × Block)) :
    walkRules visit inKeyframes (blocks.map fun b => b.1.rule b.2) = (do
      let outs ← blocks.mapM fun b => visit b.1 b.2 inKeyframes
      pure outs.flatten) := by
  induction blocks with
  | nil => simp [walkRules]
  | cons b blocks ih =>
    have hfirst : walkRule visit inKeyframes (b.1.rule b.2) = visit b.1 b.2 inKeyframes := by
      obtain ⟨kind, block⟩ := b
      cases kind <;> rfl
    simp only [List.map_cons, walkRules, hfirst, ih, List.mapM_cons, bind_assoc, pure_bind,
      List.flatten_cons]

mutual

theorem walkRule_bind_walkRules
    (hcomm : ∀ kind block inKeyframes kind' block' inKeyframes',
      Commutes (blocksOnly made kind block inKeyframes) (visit kind' block' inKeyframes'))
    (inKeyframes : Bool) : (rule : Rule) →
    (walkRule (blocksOnly made) inKeyframes rule >>= walkRules visit inKeyframes) =
      walkRule (handOn made visit) inKeyframes rule
  | .style block => by
    simp [walkRule, blocksOnly, handOn, walkRules_blocks]
  | .keyframe block => by
    simp [walkRule, blocksOnly, handOn, walkRules_blocks]
  | .media pre inner => by
    simp [walkRule, walkRules, ← walkRules_bind_walkRules hcomm false inner]
  | .keyframes vendor name inner => by
    simp [walkRule, walkRules, ← walkRules_bind_walkRules hcomm true inner]
  | .comment text => by
    simp [walkRule, walkRules]
  | .other text => by
    simp [walkRule, walkRules]
  | .unknown code text => by
    simp [walkRule, walkRules]

/-- Two walks are one if the effects of their visitors do not depend on each other. -/
theorem walkRules_bind_walkRules
    (hcomm : ∀ kind block inKeyframes kind' block' inKeyframes',
      Commutes (blocksOnly made kind block inKeyframes) (visit kind' block' inKeyframes'))
    (inKeyframes : Bool) : (rules : List Rule) →
    (walkRules (blocksOnly made) inKeyframes rules >>= walkRules visit inKeyframes) =
      walkRules (handOn made visit) inKeyframes rules
  | [] => by
    simp [walkRules]
  | rule :: rules => by
    -- the second walk reaches the first rule only when the first walk is over, so its calls there
    -- have to pass those of the first walk for the other rules
    have hswap (first : List Rule) :
        Commutes (walkRules (blocksOnly made) inKeyframes rules)
          (walkRules visit inKeyframes first) :=
      commutes_walkRules (fun kind block flag =>
        (commutes_walkRules (fun kind' block' flag' =>
          (hcomm kind block flag kind' block' flag').symm) inKeyframes first).symm)
        inKeyframes rules
    rw [walkRules, walkRules, ← walkRule_bind_walkRules hcomm inKeyframes rule,
      ← walkRules_bind_walkRules hcomm inKeyframes rules]
    simp only [bind_assoc, pure_bind, walkRules_append]
    refine bind_congr fun first => ?_
    exact (hswap first).bind_bind fun rest outs => do
      let outs' ← walkRules visit inKeyframes rest
      pure (outs ++ outs')

end

end Fusion

end PixelRem.Css
