import Mathlib
import PixelRem.Proofs.RoundTrip

/-!
# Texts of the tree, read back

The text of a run has no comments and one blank for each inner run of white space.  Read back,
it need not have the tokens of the run: `1px/**/2px` becomes the one dimension `1px2px`, and a
backslash before a line end escapes the blank that takes the place of the line end.

`Settled` asks of the tokens at these places, and of no others, that they stand before what now
follows them.  The text of a run is read back exactly when the run is settled
(`readsBack_iff_settled`), in particular when every comment stands behind white space and no
backslash is a token of its own (`Spaced.settled`).  In a stylesheet a mark stands behind each
run that becomes text of the tree (`RuleSeq.bounded`), so this holds of every selector, query,
animation name, property and value.
-/

namespace PixelRem.Css

/-- The kind and the text of a token, wherever it stands. -/
def Token.word (t : Token) : TokenKind × Text :=
  (t.kind, t.text)

/-- The tokens that are not white space. -/
def visible (ts : List Token) : List Token :=
  ts.filter (·.kind != .whitespace)

/-- The text of a run has the tokens of the run, but for white space and comments. -/
def ReadsBack (ts : List Token) : Prop :=
  (visible (tokenize (joinTokens ts))).map Token.word = (solid ts).map Token.word

instance (ts : List Token) : Decidable (ReadsBack ts) :=
  inferInstanceAs (Decidable (_ = _))

/-- A comment stands behind the solid tokens that the run starts with. -/
def MeetsComment : List Token → Prop
  | [] => False
  | t :: ts => t.kind = .comment ∨ t.isSolid = true ∧ MeetsComment ts

/-- A token with nothing but solid tokens between it and a comment, and a backslash that is a
token of its own, are found again before what follows them in the text of the run. -/
def Settled : List Token → Prop
  | [] => True
  | t :: ts =>
    (t.isSolid = true → MeetsComment ts ∨ t.text = [ascii '\\'] →
      t.Heads (joinFrom true false ts)) ∧ Settled ts

/-- Each comment stands at the start or behind white space or another comment, and no
backslash is a token of its own. -/
structure Spaced (ts : List Token) : Prop where
  comments : ts.IsChain fun t u => t.isSolid = true → u.kind ≠ .comment
  slashes : ∀ t ∈ ts, t.text ≠ [ascii '\\']

/-! ## New spacing as the tokens of a text -/

theorem Token.Heads.congr {t u : Token} {y : Text} (hheads : t.Heads y) (hword : t.word = u.word) :
    u.Heads y := by
  obtain ⟨b, tail, htext, hscan⟩ := hheads
  obtain ⟨hkind, hsame⟩ := Prod.mk.inj hword
  exact ⟨b, tail, hsame ▸ htext, by rw [hscan, hkind, hsame]⟩

/-- A solid token before a run in new spacing. -/
theorem cut_respace_solid {t : Token} (hsolid : t.isSolid = true) (started blank : Bool)
    (ts : List Token) : Cut (respace started blank (t :: ts)) [] ↔
      t.Heads (joinFrom true false ts) ∧ Cut (respace true false ts) [] := by
  have hcons : Cut (t :: respace true false ts) [] ↔
      t.Heads (joinFrom true false ts) ∧ Cut (respace true false ts) [] := by
    rw [Cut, List.append_nil, textOf_respace]
  rw [respace_solid _ _ hsolid]
  split_ifs
  · rw [List.singleton_append, Cut, hcons]
    refine and_iff_right_of_imp fun hrest => ?_
    refine heads_blank (by simp) (by simp [Byte.isSpace]) ?_ 0
    rw [textOf_cons, List.append_assoc]
    exact hrest.1.startsSolid_text hsolid _
  · exact hcons

theorem visible_cons (t : Token) (ts : List Token) :
    visible (t :: ts) = if t.kind = .whitespace then visible ts else t :: visible ts := by
  rw [visible, List.filter_cons]
  by_cases hkind : t.kind = .whitespace <;> simp [hkind, visible]

theorem visible_place (offset : Nat) (ts : List Token) :
    (visible (place offset ts)).map Token.word = (visible ts).map Token.word := by
  induction ts generalizing offset with
  | nil => rfl
  | cons t ts ih =>
    rw [place, visible_cons, visible_cons]
    dsimp only
    split_ifs
    · exact ih _
    · rw [List.map_cons, List.map_cons]
      exact congrArg (t.word :: ·) (ih _)

theorem visible_respace (started blank : Bool) (ts : List Token) :
    visible (respace started blank ts) = solid ts := by
  induction ts generalizing started blank with
  | nil => rfl
  | cons t ts ih =>
    rw [solid_cons]
    rcases t.comment_or_whitespace_or_solid with hkind | hkind | hsolid
    · rw [respace_comment _ _ hkind, ih, if_neg (by simp [Token.isSolid, hkind])]
    · rw [respace_whitespace _ _ hkind, ih, if_neg (by simp [Token.isSolid, hkind])]
    · have hrest : visible (t :: respace true false ts) = t :: solid ts := by
        rw [visible_cons, if_neg (Token.isSolid_iff.mp hsolid).1, ih]
      rw [respace_solid _ _ hsolid, if_pos hsolid, ← hrest]
      split_ifs <;> rfl

/-- Tokens whose text starts with that of a solid token, and that show it first, start with
it. -/
theorem exists_solid {us : List Token} {t : Token} {y rest : Text} {words : List (TokenKind × Text)}
    (hcut : Cut us []) (ht : t.Heads y) (hsolid : t.isSolid = true)
    (htext : textOf us = t.text ++ rest) (hwords : (visible us).map Token.word = t.word :: words) :
    ∃ vs, t.Heads rest ∧ Cut vs [] ∧ textOf vs = rest ∧ (visible vs).map Token.word = words := by
  obtain ⟨b, tail, hhead, hb⟩ := ht.solid (Token.isSolid_iff.mp hsolid).1
  cases us with
  | nil => simp [hhead] at htext
  | cons u us =>
    obtain ⟨hu, hus⟩ := hcut
    have hkind : u.kind ≠ .whitespace := by
      intro hkind
      obtain ⟨hne, hspace⟩ := hu.blank hkind
      obtain ⟨c, w, hc⟩ := List.exists_cons_of_ne_nil hne
      rw [textOf_cons, hc, hhead] at htext
      have hsame : c = b := (List.cons.inj htext).1
      rw [← hsame, hspace c (by rw [hc]; exact List.mem_cons_self)] at hb
      exact Bool.noConfusion hb
    rw [visible_cons, if_neg hkind, List.map_cons] at hwords
    obtain ⟨hword, hrest⟩ := List.cons.inj hwords
    rw [textOf_cons, (Prod.mk.inj hword).2] at htext
    have htail : textOf us = rest := List.append_cancel_left htext
    refine ⟨us, ?_, hus, htail, hrest⟩
    rw [List.append_nil, htail] at hu
    exact hu.congr hword

/-- Tokens whose text starts with one blank start with the blank. -/
theorem exists_blank {us : List Token} {rest : Text} (hcut : Cut us [])
    (htext : textOf us = 0x20 :: rest) (hrest : StartsSolid rest) :
    ∃ vs, Cut vs [] ∧ textOf vs = rest ∧ visible vs = visible us := by
  cases us with
  | nil => simp at htext
  | cons u us =>
    obtain ⟨hu, hus⟩ := hcut
    obtain ⟨c, w, hc⟩ : ∃ c w, u.text = c :: w := by
      obtain ⟨c, w, hc, -⟩ := hu
      exact ⟨c, w, hc⟩
    rw [textOf_cons, hc] at htext
    obtain ⟨rfl, htail⟩ := List.cons.inj htext
    have hkind : u.kind = .whitespace := by
      by_contra hkind
      obtain ⟨b, tail, hhead, hb⟩ := hu.solid hkind
      rw [hc] at hhead
      rw [← (List.cons.inj hhead).1] at hb
      exact absurd hb (by decide)
    -- a second byte of the token would be white space at the start of `rest`
    have hw : w = [] := by
      cases w with
      | nil => rfl
      | cons d w =>
        have hspace := (hu.blank hkind).2 d (by rw [hc]; simp)
        have hsolid := hrest d (by rw [← htail]; rfl)
        rw [hspace] at hsolid
        exact Bool.noConfusion hsolid
    refine ⟨us, hus, by rwa [hw] at htail, ?_⟩
    rw [visible_cons, if_pos hkind]

/-- Tokens with the text of a run in new spacing that show its solid tokens are the run in new
spacing. -/
theorem cut_respace_of_words {ts us : List Token} {s : Text} (hcut : Cut ts s)
    {started blank : Bool} (hus : Cut us []) (htext : textOf us = joinFrom started blank ts)
    (hwords : (visible us).map Token.word = (solid ts).map Token.word) :
    Cut (respace started blank ts) [] := by
  induction ts generalizing started blank us with
  | nil => trivial
  | cons t ts ih =>
    obtain ⟨ht, hts⟩ := hcut
    rw [solid_cons] at hwords
    rcases t.comment_or_whitespace_or_solid with hkind | hkind | hsolid
    · rw [if_neg (by simp [Token.isSolid, hkind])] at hwords
      rw [joinFrom_comment _ _ hkind] at htext
      rw [respace_comment _ _ hkind]
      exact ih hts hus htext hwords
    · rw [if_neg (by simp [Token.isSolid, hkind])] at hwords
      rw [joinFrom_whitespace _ _ hkind] at htext
      rw [respace_whitespace _ _ hkind]
      exact ih hts hus htext hwords
    · rw [if_pos hsolid, List.map_cons] at hwords
      rw [joinFrom_solid _ _ hsolid, List.append_assoc] at htext
      obtain ⟨vs, hvs, htext', hvisible⟩ : ∃ vs, Cut vs [] ∧
          textOf vs = t.text ++ joinFrom true false ts ∧ visible vs = visible us := by
        split_ifs at htext
        · exact exists_blank hus htext (ht.startsSolid_text hsolid _)
        · exact ⟨us, hus, htext, rfl⟩
      rw [← hvisible] at hwords
      obtain ⟨ws, hheads, hws, htail, hrest⟩ := exists_solid hvs ht hsolid htext' hwords
      exact (cut_respace_solid hsolid started blank ts).mpr ⟨hheads, ih hts hws htail hrest⟩

/-- A run reads back if its new spacing has the tokens that stand in it. -/
theorem readsBack_iff_cut {ts : List Token} {s : Text} (hcut : Cut ts s) :
    ReadsBack ts ↔ Cut (respace false false ts) [] := by
  rw [ReadsBack]
  constructor
  · exact cut_respace_of_words hcut (cut_tokenize _) (textOf_tokenize _)
  · intro hrespace
    rw [joinTokens, ← textOf_respace, tokenize_cut hrespace, visible_place, visible_respace]

/-! ## Backslashes that escape nothing -/

theorem isLone_append {w p : Text} (hw : w ≠ []) (hlone : IsLone (w ++ p)) :
    IsLone p ∨ p = [] ∧ IsLone w := by
  obtain ⟨b, w, rfl⟩ := List.exists_cons_of_ne_nil hw
  cases p with
  | nil =>
    rw [List.append_nil] at hlone
    exact .inr ⟨rfl, hlone⟩
  | cons c p =>
    rcases hlone with hlone | hlone
    · simp at hlone
    · obtain ⟨-, htail⟩ := List.cons.inj hlone
      rcases List.append_eq_singleton_iff.mp htail with ⟨-, hp⟩ | ⟨-, hp⟩
      · exact .inl (.inl hp)
      · exact absurd hp (List.cons_ne_nil _ _)

/-- A backslash starts a name of two bytes at least, or escapes nothing. -/
theorem unescapable_or_two_le (y : Text) :
    Unescapable y ∧ plainIdentLength (ascii '\\' :: y) = 0 ∨
      2 ≤ plainIdentLength (ascii '\\' :: y) := by
  have hstart : isNameStart (ascii '\\') = false := by decide
  by_cases hzero : plainIdentLength (ascii '\\' :: y) = 0
  · refine .inl ⟨?_, hzero⟩
    rw [plainIdentLength_eq_zero_iff, nameStartLength_eq_zero_iff] at hzero
    exact hzero.2 rfl
  · right
    have hname : nameStartLength (ascii '\\' :: y) = escapeLength (ascii '\\' :: y) := by
      rw [nameStartLength, if_neg (by rw [hstart]; exact Bool.false_ne_true)]
    rw [plainIdentLength_eq_zero_iff, hname] at hzero
    have hescape := two_le_escapeLength hzero
    rw [plainIdentLength, hname]
    split
    · omega
    · omega

/-- A token that is a backslash, or a hyphen with one, is the backslash alone, and what follows
cannot be escaped. -/
theorem Token.Heads.lone {t : Token} {y : Text} (hheads : t.Heads y) (hlone : IsLone t.text) :
    t.text = [ascii '\\'] ∧ Unescapable y := by
  obtain ⟨b, tail, htext, hscan⟩ := hheads
  have hsize := congrArg Prod.snd hscan
  rcases hlone with hlone | hlone
  · rw [hlone] at htext hsize
    obtain ⟨rfl, rfl⟩ := List.cons.inj htext
    refine ⟨hlone, ?_⟩
    have hrule : scan? (ascii '\\') y = identLike? (ascii '\\' :: y) := rfl
    rcases unescapable_or_two_le y with ⟨hnext, -⟩ | htwo
    · exact hnext
    · rw [← identLength_of_ne (by decide)] at htwo
      rw [List.nil_append, scan, hrule] at hsize
      cases hfound : identLike? (ascii '\\' :: y) with
      | none =>
        rw [identLike?_eq_none_iff] at hfound
        omega
      | some found =>
        have hle := identLength_le_of_identLike? hfound
        rw [hfound, Option.getD_some] at hsize
        simp only [List.length_cons, List.length_nil] at hsize
        omega
  · rw [hlone] at htext hsize
    obtain ⟨rfl, rfl⟩ := List.cons.inj htext
    -- the hyphen starts a longer name, or it is a token without the backslash
    have hnumber : numeric? (ascii '-' :: ascii '\\' :: y) = none := rfl
    have hrule : scan? (ascii '-') (ascii '\\' :: y) =
        identLike? (ascii '-' :: ascii '\\' :: y) := by
      have hor : scan? (ascii '-') (ascii '\\' :: y) =
        (identLike? (ascii '-' :: ascii '\\' :: y)).or
          (numeric? (ascii '-' :: ascii '\\' :: y)) := rfl
      rw [hor, hnumber, Option.or_none]
    rw [List.singleton_append, scan, hrule] at hsize
    simp only [List.length_cons, List.length_nil] at hsize
    cases hfound : identLike? (ascii '-' :: ascii '\\' :: y) with
    | none =>
      rw [hfound] at hsize
      simp at hsize
    | some found =>
      have hle := identLength_le_of_identLike? hfound
      have hne : identLength (ascii '-' :: ascii '\\' :: y) ≠ 0 := by
        rw [Ne, ← identLike?_eq_none_iff, hfound]
        simp
      rw [hfound, Option.getD_some] at hsize
      rcases unescapable_or_two_le y with ⟨-, hzero⟩ | htwo
      · exact absurd (identLength_hyphen_eq_zero_iff.mpr ⟨by decide, hzero⟩) hne
      · have hlength : identLength (ascii '-' :: ascii '\\' :: y) =
            plainIdentLength (ascii '\\' :: y) + 1 := by
          rw [identLength, if_pos rfl, if_neg (by decide)]
          split
          · omega
          · omega
        omega

/-! ## Settled runs -/

section Settled

variable {ts : List Token} {s : Text} (hs : Ends s) (hne : s ≠ [])

include hs hne

/-- Behind a token of a settled run, the run and its text agree up to the next white space. -/
theorem joinFrom_common (hcut : Cut ts s) (hmeets : ¬ MeetsComment ts) (hsettled : Settled ts) :
    ∃ p r r', textOf ts ++ s = p ++ r ∧ joinFrom true false ts = p ++ r' ∧ Ends r ∧ r ≠ [] ∧
      Ends r' ∧ KeepsSpace r r' ∧ (IsLone p → Unescapable r') := by
  have hnil : ¬ IsLone [] := by simp [IsLone]
  induction ts with
  | nil =>
    exact ⟨[], s, [], rfl, rfl, hs, hne, ends_nil, fun hblank => by simp at hblank,
      fun hlone => absurd hlone hnil⟩
  | cons t ts ih =>
    obtain ⟨ht, hts⟩ := hcut
    rcases t.comment_or_whitespace_or_solid with hkind | hkind | hsolid
    · exact absurd (.inl hkind) hmeets
    · obtain ⟨hends, hnonempty⟩ := ht.ends hkind (textOf ts ++ s)
      obtain ⟨htext, hspace⟩ := ht.blank hkind
      obtain ⟨b, w, hb⟩ := List.exists_cons_of_ne_nil htext
      refine ⟨[], t.text ++ (textOf ts ++ s), joinFrom true true ts, ?_, ?_, hends, hnonempty, ?_,
        fun _ => ?_, fun hlone => absurd hlone hnil⟩
      · rw [textOf_cons, List.append_assoc]
        rfl
      · rw [joinFrom_whitespace _ _ hkind]
        rfl
      · have hjoin := ends_joinFrom ends_nil ts
        rwa [List.append_nil] at hjoin
      · rw [hb]
        exact hspace b (by rw [hb]; exact List.mem_cons_self)
    · obtain ⟨p, r, r', hsource, hjoin, hr, hrne, hr', hkeeps, hlone⟩ :=
        ih hts (fun hrest => hmeets (.inr ⟨hsolid, hrest⟩)) hsettled.2
      obtain ⟨b, tail, htext, -⟩ := ht.solid (Token.isSolid_iff.mp hsolid).1
      refine ⟨t.text ++ p, r, r', ?_, ?_, hr, hrne, hr', hkeeps, fun hlast => ?_⟩
      · rw [textOf_cons, List.append_assoc, hsource, List.append_assoc]
      · rw [joinFrom_solid _ _ hsolid, hjoin, List.append_assoc, List.append_assoc]
        rfl
      · rcases isLone_append (by simp [htext]) hlast with hlast | ⟨hp, hslash⟩
        · exact hlone hlast
        · have hheads := hsettled.1 hsolid (.inr (ht.lone hslash).1)
          rw [hjoin, hp] at hheads
          exact (hheads.lone hslash).2

/-- A solid token of a settled run stands before what follows it in the text of the run. -/
theorem Settled.heads {t : Token} (hcut : Cut (t :: ts) s) (hsettled : Settled (t :: ts))
    (hsolid : t.isSolid = true) : t.Heads (joinFrom true false ts) := by
  by_cases hplace : MeetsComment ts ∨ t.text = [ascii '\\']
  · exact hsettled.1 hsolid hplace
  rw [not_or] at hplace
  obtain ⟨ht, hts⟩ := hcut
  have hkind := (Token.isSolid_iff.mp hsolid).1
  obtain ⟨p, r, r', hsource, hjoin, hr, hrne, hr', hkeeps, hlone⟩ :=
    joinFrom_common hs hne hts hplace.1 hsettled.2
  obtain ⟨b, tail, htext, -⟩ := ht.solid hkind
  rw [hjoin]
  have hswap := ht
  rw [hsource] at hswap
  refine hswap.swap hkind ⟨hr, hrne, hr', fun _ _ => hkeeps, fun hlast _ => ?_⟩
  rcases hlast with hlast | hlast
  · exact hlone hlast
  · rcases isLone_append (by simp [htext]) hlast with hlast | ⟨-, hlast⟩
    · exact hlone hlast
    · exact absurd (ht.lone hlast).1 hplace.2

theorem cut_respace_iff_settled (hcut : Cut ts s) (started blank : Bool) :
    Cut (respace started blank ts) [] ↔ Settled ts := by
  induction ts generalizing started blank with
  | nil => exact Iff.rfl
  | cons t ts ih =>
    have hrest := ih hcut.2
    rcases t.comment_or_whitespace_or_solid with hkind | hkind | hsolid
    · rw [respace_comment _ _ hkind, hrest, Settled]
      simp [Token.isSolid, hkind]
    · rw [respace_whitespace _ _ hkind, hrest, Settled]
      simp [Token.isSolid, hkind]
    · rw [cut_respace_solid hsolid, hrest]
      refine ⟨fun hsplit => ⟨fun _ _ => hsplit.1, hsplit.2⟩, fun hsettled => ⟨?_, hsettled.2⟩⟩
      exact hsettled.heads hs hne hcut hsolid

/-- The text of a run has its tokens exactly if the run is settled. -/
theorem readsBack_iff_settled (hcut : Cut ts s) : ReadsBack ts ↔ Settled ts := by
  rw [readsBack_iff_cut hcut, cut_respace_iff_settled hs hne hcut]

end Settled

theorem Spaced.tail {t : Token} {ts : List Token} (hspaced : Spaced (t :: ts)) : Spaced ts :=
  ⟨hspaced.comments.tail, fun u hu => hspaced.slashes u (List.mem_cons_of_mem t hu)⟩

theorem Spaced.not_meetsComment {t : Token} {ts : List Token} (hspaced : Spaced (t :: ts))
    (hsolid : t.isSolid = true) : ¬ MeetsComment ts := by
  induction ts generalizing t with
  | nil => exact id
  | cons u us ih =>
    have hfirst := (List.isChain_cons_cons.mp hspaced.comments).1 hsolid
    rintro (hkind | ⟨hu, hmeets⟩)
    · exact hfirst hkind
    · exact ih hspaced.tail hu hmeets

/-- Where comments stand behind white space, nothing is left to ask. -/
theorem Spaced.settled {ts : List Token} (hspaced : Spaced ts) : Settled ts := by
  induction ts with
  | nil => trivial
  | cons t ts ih =>
    refine ⟨fun hsolid hplace => ?_, ih hspaced.tail⟩
    rcases hplace with hmeets | hslash
    · exact absurd hmeets (hspaced.not_meetsComment hsolid)
    · exact absurd hslash (hspaced.slashes t List.mem_cons_self)

/-! ## Runs of a stylesheet -/

/-- The run is cut before a stop. -/
def Bounded (ts : List Token) : Prop :=
  ∃ s, Cut ts s ∧ Ends s ∧ s ≠ []

/-- Every run that becomes text of the tree is cut before a stop. -/
def bounded : Demand :=
  fun _ ts => Bounded ts

theorem Bounded.tail {t : Token} {ts : List Token} (hrun : Bounded (t :: ts)) : Bounded ts := by
  obtain ⟨s, hcut, hends⟩ := hrun
  exact ⟨s, hcut.2, hends⟩

/-- A mark bounds the run before it. -/
theorem bounded_of_mark {ts us : List Token} {t : Token} {s : Text} (hcut : Cut (ts ++ t :: us) s)
    (hmark : t.kind ∈ marks) : Bounded ts ∧ Cut us s := by
  obtain ⟨hts, ht, hus⟩ := cut_append.mp hcut
  obtain ⟨b, hb, htext, -, -⟩ := ht.mark hmark
  refine ⟨⟨_, hts, ?_, ?_⟩, hus⟩
  · rw [textOf_cons, htext]
    exact ends_cons.mpr hb
  · rw [textOf_cons, htext]
    exact List.cons_ne_nil _ _

theorem Declares.bounded {us : List Token} {item : Item} (hitem : Declares anyRun us item)
    (hrun : Bounded us) : Declares bounded us item := by
  obtain ⟨hlead, hplain, hname, htext, hcolon, hvalue, -, -⟩ := hitem
  obtain ⟨s, hcut, hends⟩ := hrun
  obtain ⟨hproperty, hrest⟩ := bounded_of_mark hcut (by rw [hcolon]; decide)
  exact .intro hlead hplain hname htext hcolon hvalue hproperty ⟨s, hrest, hends⟩

theorem ItemSeq.bounded {ts : List Token} {items : List Item} (hitems : ItemSeq anyRun ts items)
    (hrun : Bounded ts) : ItemSeq bounded ts items := by
  induction hitems with
  | nil => exact .nil
  | skip hskip _ ih => exact .skip hskip (ih hrun.tail)
  | comment hkind _ ih => exact .comment hkind (ih hrun.tail)
  | declaration first hend _ ih =>
    obtain ⟨s, hcut, hends⟩ := hrun
    obtain ⟨hfirst, hrest⟩ := bounded_of_mark hcut (by rw [hend]; decide)
    exact .declaration (first.bounded hfirst) hend (ih ⟨s, hrest, hends⟩)
  | last first => exact .last (first.bounded hrun)

theorem Qualifies.bounded {us : List Token} {block : Block} {s : Text}
    (hblock : Qualifies anyRun us block) (hcut : Cut us s) : Qualifies bounded us block := by
  obtain ⟨hlead, hpre, hparts, htext, -, hopen, hitems, hclose⟩ := hblock
  obtain ⟨hselectors, hrest⟩ := bounded_of_mark hcut (by rw [hopen]; decide)
  obtain ⟨hbody, -⟩ := bounded_of_mark hrest (by rw [hclose]; decide)
  exact .intro hlead hpre hparts htext hselectors hopen (hitems.bounded hbody) hclose

theorem KeyframeSeq.bounded {ts : List Token} {rules : List Rule} {s : Text}
    (hrules : KeyframeSeq anyRun ts rules) (hcut : Cut ts s) : KeyframeSeq bounded ts rules := by
  induction hrules with
  | nil => exact .nil
  | skip hskip _ ih => exact .skip hskip (ih hcut.2)
  | comment hkind _ ih => exact .comment hkind (ih hcut.2)
  | keyframe first _ ih =>
    obtain ⟨hfirst, hrest⟩ := cut_append.mp hcut
    exact .keyframe (first.bounded hfirst) (ih hrest)

/-- In a stylesheet a mark stands behind each run that becomes text of the tree. -/
theorem RuleSeq.bounded {ts : List Token} {rules : List Rule} {s : Text}
    (hrules : RuleSeq anyRun ts rules) (hcut : Cut ts s) : RuleSeq bounded ts rules := by
  induction hrules generalizing s with
  | nil => exact .nil
  | skip hskip _ ih => exact .skip hskip (ih hcut.2)
  | comment hkind _ ih => exact .comment hkind (ih hcut.2)
  | media hname hpre _ hopen _ hclose _ ihblock ihtail =>
    obtain ⟨hquery, hrest⟩ := bounded_of_mark hcut.2 (by rw [hopen]; decide)
    obtain ⟨⟨z, hbody, -⟩, htail⟩ := bounded_of_mark hrest (by rw [hclose]; decide)
    exact .media hname hpre hquery hopen (ihblock hbody) hclose (ihtail htail)
  | keyframes hname hpre _ hopen block hclose _ ihtail =>
    obtain ⟨hanimation, hrest⟩ := bounded_of_mark hcut.2 (by rw [hopen]; decide)
    obtain ⟨⟨z, hbody, -⟩, htail⟩ := bounded_of_mark hrest (by rw [hclose]; decide)
    exact .keyframes hname hpre hanimation hopen (block.bounded hbody) hclose (ihtail htail)
  | other hname hraw _ ih => exact .other hname hraw (ih (cut_append.mp hcut.2).2)
  | style first hplain _ ih =>
    obtain ⟨hfirst, hrest⟩ := cut_append.mp hcut
    exact .style (first.bounded hfirst) hplain (ih hrest)

/-- A comma bounds the member before it. -/
theorem bounded_splitFrom (depth : Nat) {ts : List Token} {s : Text} (hcut : Cut ts s)
    (hs : Ends s) (hne : s ≠ []) :
    (∃ behind, textOf ts ++ s = textOf (splitFrom depth ts).1 ++ behind ∧
        Cut (splitFrom depth ts).1 behind ∧ Ends behind ∧ behind ≠ []) ∧
      ∀ part ∈ (splitFrom depth ts).2, Bounded part := by
  induction ts generalizing depth with
  | nil => exact ⟨⟨s, rfl, trivial, hs, hne⟩, by simp [splitFrom]⟩
  | cons t ts ih =>
    obtain ⟨ht, hts⟩ := hcut
    obtain ⟨⟨behind, htext, hfirst, hends, hnonempty⟩, hothers⟩ :=
      ih (t.kind.depthAfter depth) hts
    rw [splitFrom]
    dsimp only
    split_ifs with hcomma
    · obtain ⟨b, hb, hmark, -, -⟩ := ht.mark (by rw [hcomma.1]; decide)
      refine ⟨⟨b :: (textOf ts ++ s), by rw [textOf_cons, hmark]; rfl, trivial, ends_cons.mpr hb,
        List.cons_ne_nil _ _⟩, ?_⟩
      exact List.forall_mem_cons.mpr ⟨⟨behind, hfirst, hends, hnonempty⟩, hothers⟩
    · refine ⟨⟨behind, ?_, ⟨by rwa [htext] at ht, hfirst⟩, hends, hnonempty⟩, hothers⟩
      rw [textOf_cons, List.append_assoc, htext, textOf_cons, List.append_assoc]

theorem bounded_membersOf {ts : List Token} (hrun : Bounded ts) :
    ∀ part ∈ membersOf ts, Bounded part := by
  obtain ⟨s, hcut, hs, hne⟩ := hrun
  obtain ⟨⟨behind, -, hfirst⟩, hothers⟩ := bounded_splitFrom 0 hcut hs hne
  intro part hpart
  have hmem := (List.mem_filter.mp hpart).1
  unfold splitTopLevel at hmem
  rcases List.mem_cons.mp hmem with rfl | hmem
  · exact ⟨behind, hfirst⟩
  · exact hothers part hmem

/-! ## The texts of a stylesheet -/

/-- The runs whose texts the tree holds for a part: the members of a selector list, or the
whole run. -/
def runsOf : Part → List Token → List (List Token)
  | .selectors, ts => membersOf ts
  | _, ts => [ts]

/-- A run reads back exactly if it is settled, and so it does if its comments stand behind
white space. -/
structure Keeps (ts : List Token) : Prop where
  exactly : ReadsBack ts ↔ Settled ts
  spaced : Spaced ts → ReadsBack ts

/-- What reading back asks of each run. -/
def keeps : Demand :=
  fun part ts => ∀ run ∈ runsOf part ts, Keeps run

theorem Bounded.keeps {ts : List Token} (hrun : Bounded ts) : Keeps ts := by
  obtain ⟨s, hcut, hs, hne⟩ := hrun
  have hexactly := readsBack_iff_settled hs hne hcut
  exact ⟨hexactly, fun hspaced => hexactly.mpr hspaced.settled⟩

theorem keeps_of_bounded (part : Part) (ts : List Token) (hrun : bounded part ts) :
    keeps part ts := by
  intro run hmem
  cases part with
  | selectors => exact (bounded_membersOf hrun run hmem).keeps
  | query | animation | property | value =>
    obtain rfl : run = ts := List.mem_singleton.mp hmem
    exact Bounded.keeps hrun

/-- Each selector, query, animation name, property and value of an accepted stylesheet is the
text of a run that reads back exactly if it is settled. -/
theorem parse_keeps (source : Text) (rules : List Rule) (hparse : parse source = .ok rules) :
    Sheet keeps (tokenize source) rules := by
  rw [parse_eq_ok, parseTokens_eq_ok_iff] at hparse
  have hcut := cut_tokenize source
  generalize tokenize source = ts at hparse hcut
  cases hparse with
  | complete entries => exact .complete ((entries.bounded hcut).mono keeps_of_bounded)
  | unended entries hname hraw =>
    obtain ⟨hentries, -⟩ := cut_append.mp hcut
    exact .unended ((entries.bounded hentries).mono keeps_of_bounded) hname hraw

/-- A comment with a blank behind it parts two values. -/
theorem parse_keeps_parted :
    parse (utf8 "a\x7bmargin:1px/**/ 2px\x7d") =
        .ok [.style ⟨[utf8 "a"], [.declaration (utf8 "margin") (utf8 "1px 2px")]⟩] ∧
      Sheet keeps (tokenize (utf8 "a\x7bmargin:1px/**/ 2px\x7d"))
        [.style ⟨[utf8 "a"], [.declaration (utf8 "margin") (utf8 "1px 2px")]⟩] ∧
      ReadsBack [⟨.dimension, utf8 "1px", 9⟩, ⟨.comment, utf8 "/**/", 12⟩,
        ⟨.whitespace, utf8 " ", 16⟩, ⟨.dimension, utf8 "2px", 17⟩] := by
  have hvalue : IsValue [⟨.dimension, utf8 "1px", 9⟩, ⟨.comment, utf8 "/**/", 12⟩,
      ⟨.whitespace, utf8 " ", 16⟩, ⟨.dimension, utf8 "2px", 17⟩] :=
    ⟨by simp [guards_cons, valueStops], by simp, rfl⟩
  have htokens : tokenize (utf8 "a\x7bmargin:1px/**/ 2px\x7d") =
      ([⟨.ident, utf8 "a", 0⟩] ++ ⟨.leftBrace, [0x7B], 1⟩ ::
        (([⟨.ident, utf8 "margin", 2⟩] ++ ⟨.colon, utf8 ":", 8⟩ ::
            [⟨.dimension, utf8 "1px", 9⟩, ⟨.comment, utf8 "/**/", 12⟩, ⟨.whitespace, utf8 " ", 16⟩,
              ⟨.dimension, utf8 "2px", 17⟩]) ++
          [⟨.rightBrace, [0x7D], 20⟩])) ++ [] := by
    decide +kernel
  have hparse : parse (utf8 "a\x7bmargin:1px/**/ 2px\x7d") =
      .ok [.style ⟨[utf8 "a"], [.declaration (utf8 "margin") (utf8 "1px 2px")]⟩] :=
    parse_declaration htokens (by decide) (by decide) hvalue rfl rfl rfl
  exact ⟨hparse, parse_keeps _ _ hparse, by decide +kernel⟩

/-- A comment alone between two values joins them into one token. -/
theorem comment_joins_values :
    tokenize (utf8 "a\x7bmargin:1px/**/2px\x7d") =
        [⟨.ident, utf8 "a", 0⟩, ⟨.leftBrace, [0x7B], 1⟩, ⟨.ident, utf8 "margin", 2⟩,
          ⟨.colon, utf8 ":", 8⟩] ++ [⟨.dimension, utf8 "1px", 9⟩, ⟨.comment, utf8 "/**/", 12⟩,
          ⟨.dimension, utf8 "2px", 16⟩] ++ [⟨.rightBrace, [0x7D], 19⟩] ∧
      parse (utf8 "a\x7bmargin:1px/**/2px\x7d") =
        .ok [.style ⟨[utf8 "a"], [.declaration (utf8 "margin") (utf8 "1px2px")]⟩] ∧
      tokenize (utf8 "1px2px") = [⟨.dimension, utf8 "1px2px", 0⟩] ∧
      ¬ ReadsBack [⟨.dimension, utf8 "1px", 9⟩, ⟨.comment, utf8 "/**/", 12⟩,
        ⟨.dimension, utf8 "2px", 16⟩] := by
  have hvalue : IsValue [⟨.dimension, utf8 "1px", 9⟩, ⟨.comment, utf8 "/**/", 12⟩,
      ⟨.dimension, utf8 "2px", 16⟩] :=
    ⟨by simp [guards_cons, valueStops], by simp, rfl⟩
  have htokens : tokenize (utf8 "a\x7bmargin:1px/**/2px\x7d") =
      ([⟨.ident, utf8 "a", 0⟩] ++ ⟨.leftBrace, [0x7B], 1⟩ ::
        (([⟨.ident, utf8 "margin", 2⟩] ++ ⟨.colon, utf8 ":", 8⟩ ::
            [⟨.dimension, utf8 "1px", 9⟩, ⟨.comment, utf8 "/**/", 12⟩,
              ⟨.dimension, utf8 "2px", 16⟩]) ++
          [⟨.rightBrace, [0x7D], 19⟩])) ++ [] := by
    decide +kernel
  exact ⟨htokens, parse_declaration htokens (by decide) (by decide) hvalue rfl rfl rfl,
    by decide +kernel, by decide +kernel⟩

end PixelRem.Css
