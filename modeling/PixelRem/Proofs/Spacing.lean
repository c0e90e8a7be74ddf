import Mathlib
import PixelRem.Proofs.Readers
import PixelRem.Proofs.TokenSwap

/-!
# Runs of tokens with other white space

The text of a run in the rule tree has one blank where the run has white space, and
none at its ends.  This module says which tokens such a text has when it is read
again, and that the grammar does not tell them from the run.

* `solid` is what is left of a run without white space and comments; brackets, values
  and preludes depend on nothing else.
* `respace` is the run with its white space replaced, and `framed` puts given white
  space around it.  Both are cut where they are printed (`cut_respace`,
  `cut_framed`), by what `Token.Heads.swap` says of each token.
* `listed` is a selector list that is printed with commas and white space of the
  printer's own.
-/

namespace PixelRem.Css

/-! ## What is left without white space -/

/-- Neither white space nor a comment. -/
def Token.isSolid (t : Token) : Bool :=
  t.kind != .whitespace && t.kind != .comment

theorem Token.isSolid_iff {t : Token} :
    t.isSolid = true ↔ t.kind ≠ .whitespace ∧ t.kind ≠ .comment := by
  simp [Token.isSolid]

/-- The tokens of a run that are neither white space nor comments. -/
def solid (ts : List Token) : List Token :=
  ts.filter Token.isSolid

theorem solid_append (ts us : List Token) : solid (ts ++ us) = solid ts ++ solid us :=
  List.filter_append ts us

theorem solid_cons (t : Token) (ts : List Token) :
    solid (t :: ts) = if t.isSolid then t :: solid ts else solid ts :=
  List.filter_cons

theorem depthAfter_of_not_solid {t : Token} (ht : ¬ t.isSolid = true) (depth : Nat) :
    t.kind.depthAfter depth = depth := by
  rw [Token.isSolid_iff, not_and_or, not_not, not_not] at ht
  rcases ht with hkind | hkind <;> rw [hkind] <;> rfl

theorem depthBehind_solid (depth : Nat) (ts : List Token) :
    depthBehind depth (solid ts) = depthBehind depth ts := by
  induction ts generalizing depth with
  | nil => rfl
  | cons t ts ih =>
    rw [solid_cons]
    split_ifs with ht
    · rw [depthBehind_cons, depthBehind_cons, ih]
    · rw [depthBehind_cons, depthAfter_of_not_solid ht, ih]

theorem guards_solid {stops : List TokenKind} (hspace : .whitespace ∉ stops)
    (hcomment : .comment ∉ stops) {depth : Nat} {ts : List Token} :
    Guards stops depth (solid ts) ↔ Guards stops depth ts := by
  induction ts generalizing depth with
  | nil => rfl
  | cons t ts ih =>
    rw [solid_cons]
    split_ifs with ht
    · rw [guards_cons, guards_cons, ih]
    · have hstop : t.kind ∉ stops := by
        rw [Token.isSolid_iff, not_and_or, not_not, not_not] at ht
        rcases ht with hkind | hkind <;> rwa [hkind]
      rw [guards_cons, depthAfter_of_not_solid ht, ih]
      exact ⟨fun hguards => ⟨fun _ => hstop, hguards⟩, fun hguards => hguards.2⟩

/-- A prelude is known by its solid tokens. -/
theorem isPrelude_solid {ts : List Token} : IsPrelude (solid ts) ↔ IsPrelude ts := by
  have hguards : Guards preludeStops 0 (solid ts) ↔ Guards preludeStops 0 ts :=
    guards_solid (by decide) (by decide)
  constructor
  · rintro ⟨hsolid, hclosed⟩
    exact ⟨hguards.mp hsolid, by rwa [depthBehind_solid] at hclosed⟩
  · rintro ⟨hrun, hclosed⟩
    exact ⟨hguards.mpr hrun, by rwa [depthBehind_solid]⟩

/-- A value is known by its solid tokens. -/
theorem isValue_solid {ts : List Token} : IsValue (solid ts) ↔ IsValue ts := by
  have hguards : Guards valueStops 0 (solid ts) ↔ Guards valueStops 0 ts :=
    guards_solid (by decide) (by decide)
  constructor
  · rintro ⟨hsolid, hopen, hclosed⟩
    refine ⟨hguards.mp hsolid, fun t ht hkind => ?_, by rwa [depthBehind_solid] at hclosed⟩
    refine hopen t (List.mem_filter.mpr ⟨ht, ?_⟩) hkind
    rw [Token.isSolid_iff, hkind]
    decide
  · rintro ⟨hrun, hopen, hclosed⟩
    exact ⟨hguards.mpr hrun, fun t ht => hopen t (List.mem_filter.mp ht).1,
      by rwa [depthBehind_solid]⟩

/-- A property is known by its solid tokens. -/
theorem isProperty_solid {ts : List Token} : IsProperty (solid ts) ↔ IsProperty ts := by
  refine ⟨fun hsolid t ht => ?_, fun hrun t ht => hrun t (List.mem_filter.mp ht).1⟩
  by_cases hkind : t.isSolid = true
  · exact hsolid t (List.mem_filter.mpr ⟨ht, hkind⟩)
  · rw [Token.isSolid_iff, not_and_or, not_not, not_not] at hkind
    rcases hkind with hkind | hkind <;> rw [hkind] <;> decide

/-! ## Tokens as the source has them -/

/-- The tokens are cut from the head of a text that holds no backslash where they stand,
and their at-keywords are ASCII. -/
structure Clean (ts : List Token) (behind : Text) : Prop where
  cut : Cut ts behind
  noEscape : ascii '\\' ∉ textOf ts
  asciiKeywords : ∀ t ∈ ts, t.kind = .atKeyword → ∀ b ∈ t.text, b < 0x80

theorem clean_append {ts us : List Token} {behind : Text} :
    Clean (ts ++ us) behind ↔ Clean ts (textOf us ++ behind) ∧ Clean us behind := by
  constructor
  · rintro ⟨hcut, hescape, hascii⟩
    rw [cut_append] at hcut
    rw [textOf_append, List.mem_append, not_or] at hescape
    exact ⟨⟨hcut.1, hescape.1, fun t ht => hascii t (List.mem_append_left us ht)⟩,
      ⟨hcut.2, hescape.2, fun t ht => hascii t (List.mem_append_right ts ht)⟩⟩
  · rintro ⟨⟨hcut, hescape, hascii⟩, ⟨hcut', hescape', hascii'⟩⟩
    refine ⟨cut_append.mpr ⟨hcut, hcut'⟩, ?_, fun t ht => ?_⟩
    · rw [textOf_append, List.mem_append, not_or]
      exact ⟨hescape, hescape'⟩
    · rcases List.mem_append.mp ht with ht | ht
      · exact hascii t ht
      · exact hascii' t ht

theorem clean_cons {t : Token} {ts : List Token} {behind : Text} :
    Clean (t :: ts) behind ↔ Clean [t] (textOf ts ++ behind) ∧ Clean ts behind :=
  @clean_append [t] ts behind

theorem Clean.heads {t : Token} {ts : List Token} {behind : Text}
    (hclean : Clean (t :: ts) behind) :
    t.Heads (textOf ts ++ behind) :=
  hclean.cut.1

/-! ## One blank for each run of white space -/

/-- One blank. -/
def blankToken : Token :=
  ⟨.whitespace, [0x20], 0⟩

/-- The tokens of a run with one blank for each inner run of white space.  `started`
says that some token came before and `blank` that white space did. -/
def respace : (started blank : Bool) → List Token → List Token
  | _, _, [] => []
  | started, blank, t :: ts =>
    match t.kind with
    | .comment => respace started blank ts
    | .whitespace => respace started true ts
    | _ => (if started && blank then [blankToken] else []) ++ t :: respace true false ts

section Respace

variable {t : Token} {ts : List Token} (started blank : Bool)

theorem respace_comment (hkind : t.kind = .comment) :
    respace started blank (t :: ts) = respace started blank ts := by
  rw [respace, hkind]

theorem respace_whitespace (hkind : t.kind = .whitespace) :
    respace started blank (t :: ts) = respace started true ts := by
  rw [respace, hkind]

theorem respace_solid (hsolid : t.isSolid = true) :
    respace started blank (t :: ts) =
      (if started && blank then [blankToken] else []) ++ t :: respace true false ts := by
  rw [Token.isSolid_iff] at hsolid
  rw [respace.eq_def]
  dsimp only
  split
  · rename_i hkind
    exact absurd hkind hsolid.2
  · rename_i hkind
    exact absurd hkind hsolid.1
  · rfl

theorem joinFrom_comment (hkind : t.kind = .comment) :
    joinFrom started blank (t :: ts) = joinFrom started blank ts := by
  rw [joinFrom, hkind]

theorem joinFrom_whitespace (hkind : t.kind = .whitespace) :
    joinFrom started blank (t :: ts) = joinFrom started true ts := by
  rw [joinFrom, hkind]

theorem joinFrom_solid (hsolid : t.isSolid = true) :
    joinFrom started blank (t :: ts) =
      (if started && blank then [0x20] else []) ++ t.text ++ joinFrom true false ts := by
  rw [Token.isSolid_iff] at hsolid
  exact joinFrom_text hsolid.2 hsolid.1 started blank ts

end Respace

/-- The three kinds of heads that a run can have for its text. -/
theorem Token.comment_or_whitespace_or_solid (t : Token) :
    t.kind = .comment ∨ t.kind = .whitespace ∨ t.isSolid = true := by
  rw [Token.isSolid_iff]
  tauto

/-- A run in new spacing has the text of the run. -/
theorem textOf_respace (started blank : Bool) (ts : List Token) :
    textOf (respace started blank ts) = joinFrom started blank ts := by
  induction ts generalizing started blank with
  | nil => rfl
  | cons t ts ih =>
    rcases t.comment_or_whitespace_or_solid with hkind | hkind | hsolid
    · rw [respace_comment _ _ hkind, joinFrom_comment _ _ hkind, ih]
    · rw [respace_whitespace _ _ hkind, joinFrom_whitespace _ _ hkind, ih]
    · rw [respace_solid _ _ hsolid, joinFrom_solid _ _ hsolid, textOf_append, textOf_cons, ih,
        List.append_assoc]
      split_ifs <;> rfl

/-- A run in new spacing has the solid tokens of the run. -/
theorem solid_respace (started blank : Bool) (ts : List Token) :
    solid (respace started blank ts) = solid ts := by
  induction ts generalizing started blank with
  | nil => rfl
  | cons t ts ih =>
    rw [solid_cons]
    rcases t.comment_or_whitespace_or_solid with hkind | hkind | hsolid
    · rw [respace_comment _ _ hkind, ih, if_neg (by simp [Token.isSolid, hkind])]
    · rw [respace_whitespace _ _ hkind, ih, if_neg (by simp [Token.isSolid, hkind])]
    · rw [respace_solid _ _ hsolid, if_pos hsolid, solid_append, solid_cons, if_pos hsolid, ih]
      split_ifs <;> rfl

/-- Joining a run in new spacing gives its text. -/
theorem joinFrom_respace (started blank : Bool) (ts : List Token) :
    joinFrom started false (respace started blank ts) = joinFrom started blank ts := by
  induction ts generalizing started blank with
  | nil => rfl
  | cons t ts ih =>
    rcases t.comment_or_whitespace_or_solid with hkind | hkind | hsolid
    · rw [respace_comment _ _ hkind, joinFrom_comment _ _ hkind, ih]
    · rw [respace_whitespace _ _ hkind, joinFrom_whitespace _ _ hkind, ih]
    · rw [respace_solid _ _ hsolid, joinFrom_solid _ _ hsolid]
      split_ifs with hblank
      · rw [Bool.and_eq_true] at hblank
        rw [List.cons_append, List.nil_append, joinFrom_whitespace _ _ rfl,
          joinFrom_solid _ _ hsolid, hblank.1, ih]
        rfl
      · rw [List.nil_append, joinFrom_solid _ _ hsolid, ih, Bool.and_false]
        rfl

/-! ## New spacing is read again -/

/-- No comment stands in the run. -/
def Uncommented (ts : List Token) : Prop :=
  ∀ t ∈ ts, t.kind ≠ .comment

/-- A text starts with no white space. -/
def StartsSolid (s : Text) : Prop :=
  ∀ b ∈ s.head?, Byte.isSpace b = false

theorem ends_joinFrom {s : Text} (hs : Ends s) (ts : List Token) :
    Ends (joinFrom true true ts ++ s) := by
  induction ts with
  | nil => exact hs
  | cons t ts ih =>
    rcases t.comment_or_whitespace_or_solid with hkind | hkind | hsolid
    · rwa [joinFrom_comment _ _ hkind]
    · rwa [joinFrom_whitespace _ _ hkind]
    · rw [joinFrom_solid _ _ hsolid]
      exact ends_cons.mpr (by decide)

theorem Token.Heads.ends {t : Token} {behind : Text} (hheads : t.Heads behind)
    (hkind : t.kind = .whitespace) (s : Text) : Ends (t.text ++ s) ∧ t.text ++ s ≠ [] := by
  obtain ⟨hne, hspace⟩ := hheads.blank hkind
  obtain ⟨b, tail, htext⟩ := List.exists_cons_of_ne_nil hne
  have hb : Byte.isSpace b = true := hspace b (by rw [htext]; exact List.mem_cons_self)
  rw [htext]
  refine ⟨ends_cons.mpr ?_, by simp⟩
  simp only [Byte.isSpace, Bool.or_eq_true, beq_iff_eq] at hb
  rcases hb with (((rfl | rfl) | rfl) | rfl) | rfl <;> decide

section Run

variable {us : List Token} {s s' : Text} (hclean : Clean us s) (hcomment : Uncommented us)
  (hs : Ends s) (hne : s ≠ []) (hs' : Ends s')

include hclean hcomment hs hne hs'

/-- Behind a token, a run and its new spacing agree up to the next stop. -/
theorem respace_common : ∃ p r r', textOf us ++ s = p ++ r ∧
    textOf (respace true false us) ++ s' = p ++ r' ∧ ascii '\\' ∉ p ∧ Ends r ∧ r ≠ [] ∧
      Ends r' := by
  induction us with
  | nil => exact ⟨[], s, s', rfl, rfl, by simp, hs, hne, hs'⟩
  | cons t us ih =>
    obtain ⟨⟨-, hescape, -⟩, hrest⟩ := clean_cons.mp hclean
    rw [textOf_cons, textOf_nil, List.append_nil] at hescape
    rcases t.comment_or_whitespace_or_solid with hkind | hkind | hsolid
    · exact absurd hkind (hcomment t List.mem_cons_self)
    · obtain ⟨hends, hnonempty⟩ := hclean.heads.ends hkind (textOf us ++ s)
      refine ⟨[], _, _, by rw [textOf_cons, List.append_assoc]; rfl, rfl, by simp, hends,
        hnonempty, ?_⟩
      rw [respace_whitespace _ _ hkind, textOf_respace]
      exact ends_joinFrom hs' us
    · obtain ⟨p, r, r', hsource, hprinted, hp, hends⟩ :=
        ih hrest fun u hu => hcomment u (List.mem_cons_of_mem t hu)
      refine ⟨t.text ++ p, r, r', ?_, ?_, ?_, hends⟩
      · rw [textOf_cons, List.append_assoc, hsource, List.append_assoc]
      · rw [respace_solid _ _ hsolid, Bool.and_false, if_neg Bool.false_ne_true, List.nil_append,
          textOf_cons, List.append_assoc, hprinted, List.append_assoc]
      · rw [List.mem_append, not_or]
        exact ⟨hescape, hp⟩

/-- A run in new spacing is cut where it is printed. -/
theorem cut_respace (started blank : Bool) : Cut (respace started blank us) s' := by
  induction us generalizing started blank with
  | nil => trivial
  | cons t us ih =>
    obtain ⟨⟨-, hescape, -⟩, hrest⟩ := clean_cons.mp hclean
    rw [textOf_cons, textOf_nil, List.append_nil] at hescape
    have hcomment' : Uncommented us := fun u hu => hcomment u (List.mem_cons_of_mem t hu)
    rcases t.comment_or_whitespace_or_solid with hkind | hkind | hsolid
    · exact absurd hkind (hcomment t List.mem_cons_self)
    · rw [respace_whitespace _ _ hkind]
      exact ih hrest hcomment' started true
    · have hkind : t.kind ≠ .whitespace := (Token.isSolid_iff.mp hsolid).1
      obtain ⟨p, r, r', hsource, hprinted, hp, hr, hrne, hr'⟩ :=
        respace_common hrest hcomment' hs hne hs'
      have hheads : t.Heads (textOf (respace true false us) ++ s') := by
        have hswap := hclean.heads
        rw [hsource] at hswap
        rw [hprinted]
        refine hswap.swap hkind (swaps_of_not_mem ?_ hr hrne hr')
        rw [List.mem_append, not_or]
        exact ⟨hescape, hp⟩
      have hcut : Cut (t :: respace true false us) s' := ⟨hheads, ih hrest hcomment' true false⟩
      rw [respace_solid _ _ hsolid]
      split_ifs
      · obtain ⟨b, tail, htext, hb⟩ := hclean.heads.solid hkind
        refine ⟨heads_blank (by simp) (by simp [Byte.isSpace]) ?_ 0, hcut⟩
        simpa [htext] using hb
      · exact hcut

end Run

/-! ## White space around a run -/

/-- The text is white space. -/
def Blank (w : Text) : Prop :=
  ∀ b ∈ w, Byte.isSpace b = true

theorem Blank.append {w v : Text} (hw : Blank w) (hv : Blank v) : Blank (w ++ v) := by
  intro b hb
  rcases List.mem_append.mp hb with hb | hb
  · exact hw b hb
  · exact hv b hb

theorem blank_nil : Blank [] := by
  simp [Blank]

/-- The token of a white-space text, if it has one. -/
def skips (w : Text) : List Token :=
  if w = [] then [] else [⟨.whitespace, w, 0⟩]

@[simp] theorem skips_nil : skips [] = [] := rfl

theorem skips_of_ne {w : Text} (hw : w ≠ []) : skips w = [⟨.whitespace, w, 0⟩] :=
  if_neg hw

@[simp] theorem textOf_skips (w : Text) : textOf (skips w) = w := by
  by_cases hw : w = []
  · rw [hw]; rfl
  · rw [skips_of_ne hw]; simp

@[simp] theorem solid_skips (w : Text) : solid (skips w) = [] := by
  by_cases hw : w = []
  · rw [hw]; rfl
  · rw [skips_of_ne hw]; rfl

theorem cut_skips {w y : Text} (hw : Blank w) (hy : StartsSolid y) : Cut (skips w) y := by
  by_cases hne : w = []
  · rw [hne]; trivial
  · rw [skips_of_ne hne]
    exact ⟨heads_blank hne hw hy 0, trivial⟩

theorem joinFrom_unstarted (blank : Bool) (ts : List Token) :
    joinFrom false blank ts = joinFrom false false ts := by
  induction ts generalizing blank with
  | nil => rfl
  | cons t ts ih =>
    rcases t.comment_or_whitespace_or_solid with hkind | hkind | hsolid
    · rw [joinFrom_comment _ _ hkind, joinFrom_comment _ _ hkind, ih]
    · rw [joinFrom_whitespace _ _ hkind, joinFrom_whitespace _ _ hkind]
    · rw [joinFrom_solid _ _ hsolid, joinFrom_solid _ _ hsolid, Bool.false_and]
      rfl

theorem joinTokens_skips_append (w : Text) (ts : List Token) :
    joinTokens (skips w ++ ts) = joinTokens ts := by
  by_cases hw : w = []
  · rw [hw]; rfl
  · rw [skips_of_ne hw, joinTokens, List.singleton_append, joinFrom_whitespace _ _ rfl,
      joinFrom_unstarted, joinTokens]

theorem joinFrom_append_skips (started blank : Bool) (ts : List Token) (w : Text) :
    joinFrom started blank (ts ++ skips w) = joinFrom started blank ts := by
  induction ts generalizing started blank with
  | nil =>
    by_cases hw : w = []
    · rw [hw]; rfl
    · rw [skips_of_ne hw]; rfl
  | cons t ts ih =>
    rw [List.cons_append]
    rcases t.comment_or_whitespace_or_solid with hkind | hkind | hsolid
    · rw [joinFrom_comment _ _ hkind, joinFrom_comment _ _ hkind, ih]
    · rw [joinFrom_whitespace _ _ hkind, joinFrom_whitespace _ _ hkind, ih]
    · rw [joinFrom_solid _ _ hsolid, joinFrom_solid _ _ hsolid, ih]

/-- A run in new spacing with `before` and `after` around it. -/
def framed (before : Text) (us : List Token) (after : Text) : List Token :=
  if respace false false us = [] then skips (before ++ after)
  else skips before ++ (respace false false us ++ skips after)

section Framed

variable (before : Text) (us : List Token) (after : Text)

theorem textOf_framed : textOf (framed before us after) = before ++ (joinTokens us ++ after) := by
  rw [joinTokens, ← textOf_respace, framed]
  split_ifs with hnil
  · rw [hnil, textOf_skips]; rfl
  · rw [textOf_append, textOf_append, textOf_skips, textOf_skips]

theorem solid_framed : solid (framed before us after) = solid us := by
  rw [framed]
  split_ifs with hnil
  · rw [solid_skips, ← solid_respace false false us, hnil]; rfl
  · rw [solid_append, solid_append, solid_skips, solid_skips, solid_respace, List.append_nil]; rfl

theorem joinTokens_framed : joinTokens (framed before us after) = joinTokens us := by
  rw [framed]
  split_ifs with hnil
  · have hjoin : joinTokens us = [] := by
      rw [joinTokens, ← textOf_respace, hnil]
      rfl
    rw [hjoin, ← List.append_nil (skips _), joinTokens_skips_append]
    rfl
  · rw [joinTokens_skips_append, joinTokens, joinFrom_append_skips, joinFrom_respace, joinTokens]

end Framed

theorem Cut.mem {ts : List Token} {behind : Text} (hcut : Cut ts behind) {t : Token} (ht : t ∈ ts) :
    ∃ y, t.Heads y := by
  induction ts with
  | nil => simp at ht
  | cons u ts ih =>
    rcases List.mem_cons.mp ht with rfl | ht
    · exact ⟨_, hcut.1⟩
    · exact ih hcut.2 ht

theorem respace_head {blank : Bool} {us ws : List Token} {t : Token}
    (hhead : respace false blank us = t :: ws) : t ∈ us ∧ t.isSolid = true := by
  induction us generalizing blank with
  | nil => simp [respace] at hhead
  | cons u us ih =>
    rcases u.comment_or_whitespace_or_solid with hkind | hkind | hsolid
    · rw [respace_comment _ _ hkind] at hhead
      exact ⟨List.mem_cons_of_mem u (ih hhead).1, (ih hhead).2⟩
    · rw [respace_whitespace _ _ hkind] at hhead
      exact ⟨List.mem_cons_of_mem u (ih hhead).1, (ih hhead).2⟩
    · rw [respace_solid _ _ hsolid, Bool.false_and] at hhead
      obtain ⟨rfl, -⟩ := List.cons.inj hhead
      exact ⟨List.mem_cons_self, hsolid⟩

/-- A run with white space around it is cut where it is printed before a mark. -/
theorem cut_framed {us : List Token} {s s' before after : Text} (hclean : Clean us s)
    (hcomment : Uncommented us) (hs : Ends s) (hne : s ≠ []) (hs' : Ends s')
    (hstart : StartsSolid s') (hbefore : Blank before) (hafter : Blank after) :
    Cut (framed before us after) s' := by
  rw [framed]
  split_ifs with hnil
  · exact cut_skips (hbefore.append hafter) hstart
  · have hends : Ends (after ++ s') := by
      cases after with
      | nil => exact hs'
      | cons b after =>
        have hheads := heads_blank (w := b :: after) (by simp) hafter hstart 0
        exact (hheads.ends rfl s').1
    obtain ⟨t, ws, hws⟩ := List.exists_cons_of_ne_nil hnil
    obtain ⟨hmem, hsolid⟩ := respace_head hws
    obtain ⟨y, hy⟩ := hclean.cut.mem hmem
    obtain ⟨b, tail, htext, hb⟩ := hy.solid (Token.isSolid_iff.mp hsolid).1
    rw [cut_append, cut_append, textOf_skips]
    refine ⟨cut_skips hbefore ?_, cut_respace hclean hcomment hs hne hends false false,
      cut_skips hafter hstart⟩
    simpa [hws, htext, StartsSolid] using hb

/-! ## Members of a selector list -/

theorem Guards.mono {stops stops' : List TokenKind} (hsub : ∀ kind ∈ stops', kind ∈ stops)
    {depth : Nat} {ts : List Token} (hguards : Guards stops depth ts) : Guards stops' depth ts :=
  fun before t behind hsplit hdepth hmem => hguards before t behind hsplit hdepth (hsub _ hmem)

/-- A member of a selector list as it stands in the source, from a bracket depth on. -/
structure IsMember (depth : Nat) (part : List Token) (behind : Text) : Prop where
  clean : Clean part behind
  ends : Ends behind
  nonempty : behind ≠ []
  uncommented : Uncommented part
  guards : Guards (.comma :: preludeStops) depth part
  closed : depthBehind depth part = 0

/-- Splitting a prelude gives members. -/
theorem isMember_splitFrom {depth : Nat} {ts : List Token} {s : Text} (hclean : Clean ts s)
    (hs : Ends s) (hne : s ≠ []) (hcomment : Uncommented ts)
    (hguards : Guards preludeStops depth ts) (hclosed : depthBehind depth ts = 0) :
    (∃ behind, textOf ts ++ s = textOf (splitFrom depth ts).1 ++ behind ∧
        IsMember depth (splitFrom depth ts).1 behind) ∧
      ∀ part ∈ (splitFrom depth ts).2, ∃ behind, IsMember 0 part behind := by
  induction ts generalizing depth with
  | nil =>
    refine ⟨⟨s, rfl, hclean, hs, hne, hcomment, guards_nil _ _, hclosed⟩, ?_⟩
    simp [splitFrom]
  | cons t ts ih =>
    obtain ⟨ht, hrest⟩ := clean_cons.mp hclean
    rw [guards_cons] at hguards
    rw [depthBehind_cons] at hclosed
    obtain ⟨⟨behind, htext, hfirst⟩, hothers⟩ :=
      ih hrest (fun u hu => hcomment u (List.mem_cons_of_mem t hu)) hguards.2 hclosed
    rw [splitFrom]
    dsimp only
    split_ifs with hcomma
    · obtain ⟨hkind, rfl⟩ := hcomma
      obtain ⟨b, hb, hmark, -⟩ := hclean.heads.mark (by rw [hkind]; decide)
      have hdepth : t.kind.depthAfter 0 = 0 := by rw [hkind]; rfl
      refine ⟨⟨t.text ++ (textOf ts ++ s), by rw [textOf_cons, List.append_assoc]; rfl, ?_⟩, ?_⟩
      · refine ⟨⟨trivial, by simp, by simp⟩, ?_, ?_, by simp [Uncommented], guards_nil _ _, rfl⟩
        · rw [hmark]
          exact ends_cons.mpr hb
        · rw [hmark]
          simp
      · intro part hpart
        rcases List.mem_cons.mp hpart with rfl | hpart
        · rw [hdepth] at hfirst ⊢
          exact ⟨behind, hfirst⟩
        · exact hothers part hpart
    · refine ⟨⟨behind, by rw [textOf_cons, List.append_assoc, htext, textOf_cons,
        List.append_assoc], ?_⟩, hothers⟩
      refine ⟨clean_cons.mpr ⟨?_, hfirst.clean⟩, hfirst.ends, hfirst.nonempty, ?_, ?_, ?_⟩
      · rwa [htext] at ht
      · intro u hu
        rcases List.mem_cons.mp hu with rfl | hu
        · exact hcomment u List.mem_cons_self
        · exact hfirst.uncommented u hu
      · refine guards_cons.mpr ⟨fun hdepth => ?_, hfirst.guards⟩
        rw [List.mem_cons, not_or]
        exact ⟨fun hkind => hcomma ⟨hkind, hdepth⟩, hguards.1 hdepth⟩
      · rw [depthBehind_cons]
        exact hfirst.closed

/-- A comma. -/
def commaToken : Token :=
  ⟨.comma, [0x2C], 0⟩

/-- Members in new spacing with commas between them: `lead` before the first, `gap`
behind each comma and a blank at the end. -/
def listed (lead gap : Text) : List (List Token) → List Token
  | [] => []
  | [part] => framed lead part [0x20]
  | part :: next :: parts => framed lead part [] ++ commaToken :: listed gap gap (next :: parts)

theorem textOf_listed (lead gap : Text) (part : List Token) (parts : List (List Token)) :
    textOf (listed lead gap (part :: parts)) =
      lead ++ (List.intercalate (0x2C :: gap) ((part :: parts).map joinTokens) ++ [0x20]) := by
  induction parts generalizing lead part with
  | nil => rw [listed, textOf_framed]; simp
  | cons next parts ih =>
    rw [listed, textOf_append, textOf_framed, textOf_cons, ih]
    simp [List.intercalate, commaToken]

theorem guards_framed {stops : List TokenKind} (hspace : .whitespace ∉ stops)
    (hcomment : .comment ∉ stops) {depth : Nat} {before : Text} {us : List Token} {after : Text} :
    Guards stops depth (framed before us after) ↔ Guards stops depth us := by
  rw [← guards_solid hspace hcomment, solid_framed, guards_solid hspace hcomment]

theorem depthBehind_framed (depth : Nat) (before : Text) (us : List Token) (after : Text) :
    depthBehind depth (framed before us after) = depthBehind depth us := by
  rw [← depthBehind_solid, solid_framed, depthBehind_solid]

section Listed

variable {parts : List (List Token)}
  (hparts : ∀ part ∈ parts, ∃ behind, IsMember 0 part behind)

include hparts

/-- A printed selector list is split where it was. -/
theorem splitTopLevel_listed (lead gap : Text) (hne : parts ≠ []) :
    (splitTopLevel (listed lead gap parts)).map joinTokens = parts.map joinTokens := by
  obtain ⟨part, parts, rfl⟩ := List.exists_cons_of_ne_nil hne
  induction parts generalizing lead part with
  | nil =>
    obtain ⟨behind, hpart⟩ := hparts part List.mem_cons_self
    have hguards : Guards [.comma] 0 (framed lead part [0x20]) :=
      (guards_framed (by decide) (by decide)).mpr (hpart.guards.mono (by decide))
    have hsplit := splitFrom_append hguards []
    rw [List.append_nil] at hsplit
    rw [listed, splitTopLevel, hsplit]
    simp [splitFrom, joinTokens_framed]
  | cons next parts ih =>
    obtain ⟨behind, hpart⟩ := hparts part List.mem_cons_self
    have hguards : Guards [.comma] 0 (framed lead part []) :=
      (guards_framed (by decide) (by decide)).mpr (hpart.guards.mono (by decide))
    have hrest := ih gap next (fun q hq => hparts q (List.mem_cons_of_mem part hq)) (by simp)
    rw [splitTopLevel] at hrest
    rw [listed, splitTopLevel, splitFrom_append hguards, depthBehind_framed, hpart.closed,
      splitFrom]
    simpa [commaToken, TokenKind.depthAfter, joinTokens_framed] using hrest

theorem isPrelude_listed (lead gap : Text) : IsPrelude (listed lead gap parts) := by
  induction parts generalizing lead with
  | nil => exact ⟨guards_nil _ _, rfl⟩
  | cons part parts ih =>
    obtain ⟨behind, hpart⟩ := hparts part List.mem_cons_self
    have hguards {after : Text} : Guards preludeStops 0 (framed lead part after) :=
      (guards_framed (by decide) (by decide)).mpr (hpart.guards.mono (by decide))
    have hclosed {after : Text} : depthBehind 0 (framed lead part after) = 0 := by
      rw [depthBehind_framed, hpart.closed]
    cases parts with
    | nil => exact ⟨hguards, hclosed⟩
    | cons next parts =>
      have hrest := ih (fun q hq => hparts q (List.mem_cons_of_mem part hq)) gap
      rw [listed]
      refine ⟨guards_append.mpr ⟨hguards, guards_cons.mpr ⟨fun _ => by decide, ?_⟩⟩, ?_⟩
      · rw [hclosed]
        exact hrest.guards
      · rw [depthBehind_append, hclosed]
        exact hrest.closed

theorem cut_listed {lead gap s : Text} (hlead : Blank lead) (hgap : Blank gap) (hs : Ends s)
    (hstart : StartsSolid s) : Cut (listed lead gap parts) s := by
  induction parts generalizing lead with
  | nil => trivial
  | cons part parts ih =>
    obtain ⟨behind, hpart⟩ := hparts part List.mem_cons_self
    have hblank : Blank [0x20] := by simp [Blank, Byte.isSpace]
    cases parts with
    | nil =>
      exact cut_framed hpart.clean hpart.uncommented hpart.ends hpart.nonempty hs hstart hlead
        hblank
    | cons next parts =>
      have hrest := ih (fun q hq => hparts q (List.mem_cons_of_mem part hq)) hgap
      rw [listed, cut_append]
      refine ⟨?_, ⟨0x2C, [], rfl, rfl⟩, hrest⟩
      refine cut_framed hpart.clean hpart.uncommented hpart.ends hpart.nonempty ?_ ?_ hlead
        blank_nil
      · exact ends_cons.mpr (by decide)
      · simp [StartsSolid, commaToken, Byte.isSpace]

end Listed

end PixelRem.Css
