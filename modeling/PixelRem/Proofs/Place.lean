import Mathlib
import PixelRem.Proofs.Lexer
import PixelRem.Proofs.Readers

/-!
# The grammar and offsets

A derivation speaks of the kinds and texts of tokens and never of their offsets, so it
holds at every place of a source.  `RuleSeq.placed` says so for a list of rules, with a
lemma for each kind of run below it.
-/

namespace PixelRem.Css

/-! ## Runs -/

section Run

variable (offset : Nat) (ts : List Token)

theorem depthBehind_place (depth : Nat) :
    depthBehind depth (place offset ts) = depthBehind depth ts := by
  induction ts generalizing offset depth with
  | nil => rfl
  | cons t ts ih => rw [place, depthBehind_cons, depthBehind_cons, ih]

theorem guards_place (stops : List TokenKind) (depth : Nat) :
    Guards stops depth (place offset ts) ↔ Guards stops depth ts := by
  induction ts generalizing offset depth with
  | nil => rfl
  | cons t ts ih => rw [place, guards_cons, guards_cons, ih]

theorem joinFrom_place (started blank : Bool) :
    joinFrom started blank (place offset ts) = joinFrom started blank ts := by
  induction ts generalizing offset started blank with
  | nil => rfl
  | cons t ts ih => simp only [place, joinFrom, ih]

theorem joinTokens_place : joinTokens (place offset ts) = joinTokens ts :=
  joinFrom_place offset ts false false

theorem runText_place : runText (place offset ts) = runText ts := by
  rw [runText_eq, runText_eq, joinTokens_place]

theorem textOf_place : textOf (place offset ts) = textOf ts := by
  induction ts generalizing offset with
  | nil => rfl
  | cons t ts ih => rw [place, textOf_cons, textOf_cons, ih]

/-- What holds of every kind in a run holds at every place. -/
theorem forall_place (p : TokenKind → Prop) (hts : ∀ t ∈ ts, p t.kind) :
    ∀ t ∈ place offset ts, p t.kind := by
  induction ts generalizing offset with
  | nil => exact hts
  | cons t ts ih =>
    intro u hu
    rcases List.mem_cons.mp hu with rfl | hu
    · exact hts t List.mem_cons_self
    · exact ih _ (fun v hv => hts v (List.mem_cons_of_mem t hv)) u hu

/-- The first part of a split list starts where the list does. -/
theorem splitFrom_place (depth : Nat) :
    (splitFrom depth (place offset ts)).1 = place offset (splitFrom depth ts).1 ∧
      (splitFrom depth (place offset ts)).2.map joinTokens =
        (splitFrom depth ts).2.map joinTokens := by
  induction ts generalizing offset depth with
  | nil => exact ⟨rfl, rfl⟩
  | cons t ts ih =>
    obtain ⟨hfirst, hothers⟩ := ih (offset + t.text.length) (t.kind.depthAfter depth)
    simp only [place, splitFrom]
    split_ifs
    · refine ⟨rfl, ?_⟩
      rw [List.map_cons, List.map_cons, hfirst, joinTokens_place, hothers]
    · exact ⟨by rw [hfirst, place], hothers⟩

theorem selectorsOf_place : selectorsOf (place offset ts) = selectorsOf ts := by
  obtain ⟨hfirst, hothers⟩ := splitFrom_place offset ts 0
  unfold selectorsOf splitTopLevel
  dsimp only
  rw [List.map_cons, List.map_cons, hfirst, joinTokens_place, hothers]

end Run

theorem IsPrelude.placed {ts : List Token} (hts : IsPrelude ts) (offset : Nat) :
    IsPrelude (place offset ts) :=
  ⟨(guards_place offset ts _ 0).mpr hts.guards, by rw [depthBehind_place, hts.closed]⟩

theorem IsValue.placed {ts : List Token} (hts : IsValue ts) (offset : Nat) :
    IsValue (place offset ts) :=
  ⟨(guards_place offset ts _ 0).mpr hts.guards, forall_place offset ts (· ≠ .leftBrace) hts.noOpen,
    by rw [depthBehind_place, hts.closed]⟩

theorem LeadsEntry.placed {ts : List Token} (hts : LeadsEntry ts) (offset : Nat) :
    LeadsEntry (place offset ts) := by
  cases ts with
  | nil => exact hts
  | cons t ts =>
    have hhead := leadsEntry_cons.mp hts
    exact leadsEntry_cons.mpr hhead

theorem LeadsPlain.placed {ts : List Token} (hts : LeadsPlain ts) (offset : Nat) :
    LeadsPlain (place offset ts) := by
  cases ts with
  | nil => exact hts
  | cons t ts =>
    have hhead := leadsPlain_cons.mp hts
    exact leadsPlain_cons.mpr hhead

theorem IsStatement.placed {ts : List Token} (hts : IsStatement ts) (offset : Nat) :
    IsStatement (place offset ts) :=
  forall_place offset ts
    (fun kind => kind ≠ .semicolon ∧ kind ≠ .leftBrace ∧ kind ≠ .rightBrace) hts

theorem IsProperty.placed {ts : List Token} (hts : IsProperty ts) (offset : Nat) :
    IsProperty (place offset ts) :=
  forall_place offset ts
    (fun kind => kind ≠ .colon ∧ kind ≠ .semicolon ∧ kind ≠ .leftBrace ∧ kind ≠ .rightBrace) hts

theorem Balanced.placed {ts : List Token} (hts : Balanced ts) (offset : Nat) :
    Balanced (place offset ts) := by
  induction hts generalizing offset with
  | nil => exact .nil
  | token hopen hclose _ ih => exact .token hopen hclose (ih _)
  | braces hopen _ hclose _ ihinner ihtail =>
    rw [place, place_append, place]
    exact .braces hopen (ihinner _) hclose (ihtail _)

theorem IsRaw.placed {ts : List Token} (hts : IsRaw ts) (offset : Nat) :
    IsRaw (place offset ts) := by
  cases hts with
  | statement head hend =>
    rw [place_append]
    exact .statement (head.placed _) hend
  | block head hopen body hclose =>
    rw [place_append, place, place_append]
    exact .block (head.placed _) hopen (body.placed _) hclose

/-! ## Lists -/

theorem Declares.placed {demand : Demand} {us : List Token} {item : Item}
    (hitem : Declares demand us item) (offset : Nat) : Declares anyRun (place offset us) item := by
  obtain @⟨name, value, colon, hlead, hplain, hname, htext, hcolon, hvalue, -, -⟩ := hitem
  rw [place_append, place, ← runText_place offset name,
    ← runText_place (offset + (textOf name).length + colon.text.length) value]
  refine .intro (hlead.placed _) (hplain.placed _) (hname.placed _) ?_ hcolon
    (hvalue.placed _) trivial trivial
  rwa [runText_place]

theorem ItemSeq.placed {demand : Demand} {ts : List Token} {items : List Item}
    (hitems : ItemSeq demand ts items) (offset : Nat) : ItemSeq anyRun (place offset ts) items := by
  induction hitems generalizing offset with
  | nil => exact .nil
  | skip hskip _ ih => exact .skip hskip (ih _)
  | @comment t _ _ hkind _ ih =>
    exact .comment (t := ⟨t.kind, t.text, offset⟩) hkind (ih _)
  | declaration first hend _ ih =>
    rw [place_append, place]
    exact .declaration (first.placed _) hend (ih _)
  | last first => exact .last (first.placed _)

theorem Qualifies.placed {demand : Demand} {us : List Token} {block : Block}
    (hblock : Qualifies demand us block) (offset : Nat) :
    Qualifies anyRun (place offset us) block := by
  obtain @⟨pre, body, parts, opening, closing, items, hlead, hpre, hparts, htext, -, hopen, hitems,
    hclose⟩ := hblock
  rw [hparts.textsOf_eq] at htext ⊢
  rw [place_append, place, place_append, ← selectorsOf_place offset pre]
  refine .of_selectorsOf (hlead.placed _) (hpre.placed _) ?_ trivial hopen (hitems.placed _) hclose
  rwa [selectorsOf_place]

theorem KeyframeSeq.placed {demand : Demand} {ts : List Token} {rules : List Rule}
    (hrules : KeyframeSeq demand ts rules) (offset : Nat) :
    KeyframeSeq anyRun (place offset ts) rules := by
  induction hrules generalizing offset with
  | nil => exact .nil
  | skip hskip _ ih => exact .skip hskip (ih _)
  | @comment t _ _ hkind _ ih => exact .comment (t := ⟨t.kind, t.text, offset⟩) hkind (ih _)
  | keyframe first _ ih =>
    rw [place_append]
    exact .keyframe (first.placed _) (ih _)

/-- A derivation of rules holds at every place. -/
theorem RuleSeq.placed {demand : Demand} {ts : List Token} {rules : List Rule}
    (hrules : RuleSeq demand ts rules) (offset : Nat) : RuleSeq anyRun (place offset ts) rules := by
  induction hrules generalizing offset with
  | nil => exact .nil
  | skip hskip _ ih => exact .skip hskip (ih _)
  | @comment t _ _ hkind _ ih => exact .comment (t := ⟨t.kind, t.text, offset⟩) hkind (ih _)
  | @media t _ _ pre _ _ _ _ hname hpre _ hopen _ hclose _ ihblock ihtail =>
    rw [place, place_append, place, place_append, place,
      ← runText_place (offset + t.text.length) pre]
    exact .media hname (hpre.placed _) trivial hopen (ihblock _) hclose (ihtail _)
  | @keyframes t _ _ pre _ _ _ _ hname hpre _ hopen block hclose _ ihtail =>
    rw [place, place_append, place, place_append, place,
      ← runText_place (offset + t.text.length) pre]
    exact .keyframes (t := ⟨t.kind, t.text, offset⟩) hname (hpre.placed _) trivial hopen
      (block.placed _) hclose (ihtail _)
  | @other t raw _ _ hname hraw _ ih =>
    have htext : rawText t raw =
        rawText ⟨t.kind, t.text, offset⟩ (place (offset + t.text.length) raw) := by
      show Text.trim (t.text ++ textOf raw) = Text.trim (t.text ++ textOf (place _ raw))
      rw [textOf_place]
    rw [place, place_append, htext]
    exact .other hname (hraw.placed _) (ih _)
  | style first hplain _ ih =>
    rw [place_append]
    exact .style (first.placed _) (hplain.placed _) (ih _)

end PixelRem.Css
