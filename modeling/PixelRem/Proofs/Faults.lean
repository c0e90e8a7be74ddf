import Mathlib
import PixelRem.Proofs.Parse

/-!
# How stylesheets go wrong

The grammar says which token lists are stylesheets.  Here the others are told apart: a list that
is refused has a first part that is read without a fault and leaves the reader in some list of
entries (`Leads`), and behind it something that does not belong there, which is the fault
(`Wrong`).

Each reader of a run has its faults beside it (`PreludeFault`, `RawFault`, `DeclarationFault`)
and one statement that says so.  `goesWrong_of_readRules` finds the place of a fault, and
`fails_of_leads` goes back: what leads to a fault is read up to it.
-/

namespace PixelRem.Css

/-! ## Preludes -/

/-- How a prelude goes without its brace: something else ends it, or nothing does. -/
inductive PreludeFault (eof : Nat) : List Token → Fault → Prop where
  | stopped {pre us : List Token} {t : Token} (hpre : IsPrelude pre)
      (hstop : t.kind = .semicolon ∨ t.kind = .rightBrace) :
      PreludeFault eof (pre ++ t :: us) ⟨t.offset, .expectedOpen⟩
  | unended {ts : List Token} (hguards : Guards preludeStops 0 ts) :
      PreludeFault eof ts ⟨startOf eof ts, .expectedOpen⟩

/-- A run that nothing ends is read without a stop. -/
theorem preludeFrom_guards {depth : Nat} {run : List Token}
    (hguards : Guards preludeStops depth run) (start : Nat) (ts : List Token) :
    preludeFrom start depth (run ++ ts) =
      (preludeFrom start (depthBehind depth run) ts).map
        (Prod.map (withoutComments run ++ ·) id) := by
  induction run generalizing depth with
  | nil =>
    rw [List.nil_append, depthBehind_nil]
    cases preludeFrom start depth ts <;> rfl
  | cons t run ih =>
    obtain ⟨hfirst, htail⟩ := guards_cons.mp hguards
    have hopen : ¬ (depth = 0 ∧ t.kind = .leftBrace) := by
      rintro ⟨hdepth, hkind⟩
      simpa [preludeStops, hkind] using hfirst hdepth
    have hstop : ¬ (depth = 0 ∧ (t.kind = .semicolon ∨ t.kind = .rightBrace)) := by
      rintro ⟨hdepth, hkind | hkind⟩ <;> simpa [preludeStops, hkind] using hfirst hdepth
    rw [List.cons_append, preludeFrom, if_neg hopen, if_neg hstop, ih htail, depthBehind_cons,
      withoutComments_cons]
    cases preludeFrom start (depthBehind (t.kind.depthAfter depth) run) ts with
    | error fault => rfl
    | ok read =>
      obtain ⟨pre, opened, rest⟩ := read
      by_cases hcomment : t.kind = .comment <;> simp [Except.map, hcomment]

theorem fault_of_preludeFrom {start depth : Nat} {ts : List Token} {fault : Fault}
    (hread : preludeFrom start depth ts = .error fault) :
    (∃ run t us, ts = run ++ t :: us ∧ Guards preludeStops depth run ∧
        depthBehind depth run = 0 ∧ (t.kind = .semicolon ∨ t.kind = .rightBrace) ∧
        fault = ⟨t.offset, .expectedOpen⟩) ∨
      Guards preludeStops depth ts ∧ fault = ⟨start, .expectedOpen⟩ := by
  induction ts generalizing depth with
  | nil =>
    rw [preludeFrom] at hread
    exact .inr ⟨guards_nil _ _, (Except.error.inj hread).symm⟩
  | cons t ts ih =>
    rw [preludeFrom] at hread
    by_cases hopen : depth = 0 ∧ t.kind = .leftBrace
    · rw [if_pos hopen] at hread
      simp at hread
    rw [if_neg hopen] at hread
    by_cases hstop : depth = 0 ∧ (t.kind = .semicolon ∨ t.kind = .rightBrace)
    · rw [if_pos hstop] at hread
      exact .inl ⟨[], t, ts, rfl, guards_nil _ _, hstop.1, hstop.2, (Except.error.inj hread).symm⟩
    rw [if_neg hstop] at hread
    have hfree : depth = 0 → t.kind ∉ preludeStops := by
      intro hzero hmem
      simp only [preludeStops, List.mem_cons, List.not_mem_nil, or_false] at hmem
      tauto
    split at hread
    · rename_i htail
      rw [hread] at htail
      rcases ih htail with ⟨run, u, us, rfl, hguards, hdepth, hkind, hfault⟩ | ⟨hguards, hfault⟩
      · exact .inl ⟨t :: run, u, us, rfl, guards_cons.mpr ⟨hfree, hguards⟩,
          by rwa [depthBehind_cons], hkind, hfault⟩
      · exact .inr ⟨guards_cons.mpr ⟨hfree, hguards⟩, hfault⟩
    · simp at hread

theorem prelude_eq_error_iff {eof : Nat} {ts : List Token} {fault : Fault} :
    prelude eof ts = .error fault ↔ PreludeFault eof ts fault := by
  constructor
  · intro hread
    rcases fault_of_preludeFrom hread with
      ⟨run, t, us, rfl, hguards, hdepth, hkind, rfl⟩ | ⟨hguards, rfl⟩
    · exact .stopped ⟨hguards, hdepth⟩ hkind
    · exact .unended hguards
  · intro hfault
    cases hfault with
    | @stopped pre us t hpre hstop =>
      have hopen : t.kind ≠ .leftBrace := by rcases hstop with hkind | hkind <;> simp [hkind]
      rw [prelude, preludeFrom_guards hpre.guards, hpre.closed, preludeFrom,
        if_neg (fun h => hopen h.2), if_pos ⟨rfl, hstop⟩]
      rfl
    | unended hguards =>
      have hread := preludeFrom_guards hguards (startOf eof ts) []
      rw [List.append_nil, preludeFrom] at hread
      exact hread

/-! ## At-rules that are kept as written -/

/-- How an at-rule that is kept as written goes wrong behind its keyword: a closing brace stands
where none is open, or its block has no end. -/
inductive RawFault : List Token → Fault → Prop where
  | close {head us : List Token} {closing : Token} (hhead : IsStatement head)
      (hclose : closing.kind = .rightBrace) :
      RawFault (head ++ closing :: us) ⟨closing.offset, .unexpectedClose⟩
  | unclosed {head body : List Token} {opening : Token} (hhead : IsStatement head)
      (hopen : opening.kind = .leftBrace)
      (hbody : ∀ inner closing us, body = inner ++ closing :: us →
        closing.kind = .rightBrace → ¬ Balanced inner) :
      RawFault (head ++ opening :: body) ⟨opening.offset, .missingClose⟩

theorem fault_of_rawFrom_succ {depth opened : Nat} {ts : List Token} {fault : Fault}
    (hread : rawFrom (depth + 1) opened ts = .error fault) :
    fault = ⟨opened, .missingClose⟩ := by
  induction ts generalizing depth with
  | nil =>
    rw [rawFrom, if_neg (Nat.succ_ne_zero depth)] at hread
    exact (Except.error.inj hread).symm
  | cons t ts ih =>
    rw [rawFrom] at hread
    simp only [Nat.add_eq_zero_iff, Nat.one_ne_zero, and_false, false_and, if_false,
      Nat.add_eq_right] at hread
    split_ifs at hread with hlast
    split at hread
    · rename_i htail
      rw [hread] at htail
      -- the depth does not fall to zero, as the brace that closes the block ends the reading
      obtain ⟨depth', hdepth⟩ : ∃ depth', t.kind.braceDepthAfter (depth + 1) = depth' + 1 := by
        unfold TokenKind.braceDepthAfter
        split
        · exact ⟨depth + 1, rfl⟩
        · rename_i hclose
          obtain _ | depth := depth
          · exact absurd ⟨rfl, hclose⟩ hlast
          · exact ⟨depth, rfl⟩
        · exact ⟨depth, rfl⟩
      rw [hdepth] at htail
      exact ih htail
    · simp at hread

/-- A block that is kept as written has no end if no brace closes it. -/
theorem rawFrom_eq_error_iff_unclosed (opened : Nat) {body : List Token} :
    rawFrom 1 opened body = .error ⟨opened, .missingClose⟩ ↔
      ∀ inner closing us, body = inner ++ closing :: us → closing.kind = .rightBrace →
        ¬ Balanced inner := by
  constructor
  · rintro hread inner closing us rfl hclose hinner
    have hcloses := rawFrom_closes (.last hinner hclose) opened us
    rw [List.append_assoc, List.singleton_append, hread] at hcloses
    simp at hcloses
  · intro hbody
    cases hread : rawFrom 1 opened body with
    | error fault => rw [fault_of_rawFrom_succ hread]
    | ok read =>
      obtain ⟨raw, rest⟩ := read
      obtain ⟨rfl, hraw⟩ := closes_of_rawFrom hread
      cases hraw with
      | last block hclose => exact absurd block (hbody _ _ rest (by simp) hclose)

theorem fault_of_rawFrom {opened : Nat} {ts : List Token} {fault : Fault}
    (hread : rawFrom 0 opened ts = .error fault) : RawFault ts fault := by
  induction ts generalizing opened with
  | nil => simp [rawFrom] at hread
  | cons t ts ih =>
    rw [rawFrom] at hread
    by_cases hsemicolon : t.kind = .semicolon
    · simp [hsemicolon] at hread
    by_cases hclose : t.kind = .rightBrace
    · simp only [hclose, reduceCtorEq, and_false, and_self, if_false, if_true,
        Except.error.injEq] at hread
      subst hread
      exact @RawFault.close [] ts t isStatement_nil hclose
    simp only [hsemicolon, hclose, and_false, if_false, true_and] at hread
    split at hread
    · rename_i htail
      rw [hread] at htail
      by_cases hopen : t.kind = .leftBrace
      · rw [if_pos hopen, hopen] at htail
        obtain rfl := fault_of_rawFrom_succ htail
        exact @RawFault.unclosed [] ts t isStatement_nil hopen
          ((rawFrom_eq_error_iff_unclosed _).mp htail)
      · have hhead : ∀ us, IsStatement us → IsStatement (t :: us) := fun us hus =>
          List.forall_mem_cons.mpr ⟨⟨hsemicolon, hopen, hclose⟩, hus⟩
        rw [if_neg hopen, braceDepthAfter_of_ne hopen hclose] at htail
        cases ih htail with
        | close hus hkind => exact .close (hhead _ hus) hkind
        | unclosed hus hkind hbody => exact .unclosed (hhead _ hus) hkind hbody
    · simp at hread

theorem rawFrom_eq_error_iff {opened : Nat} {ts : List Token} {fault : Fault} :
    rawFrom 0 opened ts = .error fault ↔ RawFault ts fault := by
  refine ⟨fault_of_rawFrom, fun hfault => ?_⟩
  cases hfault with
  | close hhead hclose =>
    rw [rawFrom_statement hhead]
    simp [rawFrom, hclose, prepend, Except.map]
  | @unclosed head body opening hhead hopen hbody =>
    have hblock := (rawFrom_eq_error_iff_unclosed opening.offset).mpr hbody
    rw [rawFrom_statement hhead, rawFrom]
    simp only [hopen, reduceCtorEq, and_false, and_self, if_false, if_true,
      TokenKind.braceDepthAfter, hblock]
    rfl

/-! ## Declarations -/

/-- How the declaration that starts with a token goes wrong: it has no colon, nothing stands
before the colon, or a brace opens in its value. -/
inductive DeclarationFault (t : Token) (ts : List Token) : Fault → Prop where
  | colon {name us : List Token} (hsplit : t :: ts = name ++ us) (hname : IsProperty name)
      (hend : ∀ u ∈ us.head?, u.kind = .semicolon ∨ u.kind = .leftBrace ∨ u.kind = .rightBrace) :
      DeclarationFault t ts ⟨t.offset, .colonMissing⟩
  | property {name us : List Token} {colon : Token} (hsplit : t :: ts = name ++ colon :: us)
      (hname : IsProperty name) (hcolon : colon.kind = .colon) (htext : runText name = []) :
      DeclarationFault t ts ⟨t.offset, .propertyMissing⟩
  | value {name value us : List Token} {colon opening : Token}
      (hsplit : t :: ts = name ++ colon :: (value ++ opening :: us)) (hname : IsProperty name)
      (hcolon : colon.kind = .colon) (htext : runText name ≠ [])
      (hguards : Guards valueStops 0 value) (hfree : ∀ u ∈ value, u.kind ≠ .leftBrace)
      (hopen : opening.kind = .leftBrace) :
      DeclarationFault t ts ⟨opening.offset, .openInValue (runText name)⟩

theorem fault_of_propertyFrom {start : Nat} {ts : List Token} {fault : Fault}
    (hread : propertyFrom start ts = .error fault) :
    fault = ⟨start, .colonMissing⟩ ∧ ∃ name us, ts = name ++ us ∧ IsProperty name ∧
      ∀ u ∈ us.head?, u.kind = .semicolon ∨ u.kind = .leftBrace ∨ u.kind = .rightBrace := by
  induction ts with
  | nil =>
    rw [propertyFrom] at hread
    exact ⟨(Except.error.inj hread).symm, [], [], rfl, by simp [IsProperty], by simp⟩
  | cons t ts ih =>
    have hstop (hkind : t.kind = .semicolon ∨ t.kind = .leftBrace ∨ t.kind = .rightBrace) :
        ∃ name us, t :: ts = name ++ us ∧ IsProperty name ∧
          ∀ u ∈ us.head?, u.kind = .semicolon ∨ u.kind = .leftBrace ∨ u.kind = .rightBrace :=
      ⟨[], t :: ts, rfl, by simp [IsProperty], by simpa using hkind⟩
    rw [propertyFrom] at hread
    split at hread
    · simp at hread
    · rename_i hkind
      exact ⟨(Except.error.inj hread).symm, hstop (.inl hkind)⟩
    · rename_i hkind
      exact ⟨(Except.error.inj hread).symm, hstop (.inr (.inr hkind))⟩
    · rename_i hkind
      exact ⟨(Except.error.inj hread).symm, hstop (.inr (.inl hkind))⟩
    · rename_i hcolon hsemicolon hclose hopen
      split at hread
      · rename_i htail
        rw [hread] at htail
        obtain ⟨hfault, name, us, rfl, hname, hend⟩ := ih htail
        exact ⟨hfault, t :: name, us, rfl,
          List.forall_mem_cons.mpr ⟨⟨hcolon, hsemicolon, hopen, hclose⟩, hname⟩, hend⟩
      · simp at hread

theorem fault_of_valueFrom {property : Text} {depth : Nat} {ts : List Token} {fault : Fault}
    (hread : valueFrom property depth ts = .error fault) :
    ∃ value opening us, ts = value ++ opening :: us ∧ Guards valueStops depth value ∧
      (∀ u ∈ value, u.kind ≠ .leftBrace) ∧ opening.kind = .leftBrace ∧
      fault = ⟨opening.offset, .openInValue property⟩ := by
  induction ts generalizing depth with
  | nil => simp [valueFrom] at hread
  | cons t ts ih =>
    rw [valueFrom] at hread
    split_ifs at hread with hopen hsemicolon hclose
    · exact ⟨[], t, ts, rfl, guards_nil _ _, by simp, hopen, (Except.error.inj hread).symm⟩
    split at hread
    · rename_i htail
      rw [hread] at htail
      obtain ⟨value, opening, us, rfl, hguards, hfree, hkind, hfault⟩ := ih htail
      refine ⟨t :: value, opening, us, rfl, guards_cons.mpr ⟨?_, hguards⟩,
        List.forall_mem_cons.mpr ⟨hopen, hfree⟩, hkind, hfault⟩
      intro hdepth hmem
      simp only [valueStops, List.mem_cons, List.not_mem_nil, or_false] at hmem
      tauto
    · simp at hread

theorem propertyFrom_colon {name : List Token} (hname : IsProperty name) {colon : Token}
    (hcolon : colon.kind = .colon) (start : Nat) (us : List Token) :
    propertyFrom start (name ++ colon :: us) = .ok (name, us) := by
  rw [propertyFrom_property hname]
  simp [propertyFrom, hcolon, prepend, Except.map]

theorem declaration_eq_error_iff {t : Token} {ts : List Token} {fault : Fault} :
    declaration t ts = .error fault ↔ DeclarationFault t ts fault := by
  constructor
  · intro hread
    rw [declaration] at hread
    split at hread
    · rename_i hproperty
      obtain rfl := Except.error.inj hread
      obtain ⟨rfl, name, us, hsplit, hname, hend⟩ := fault_of_propertyFrom hproperty
      exact .colon hsplit hname hend
    rename_i name behind hproperty
    obtain ⟨colon, hsplit, hname, hcolon⟩ := property_of_propertyFrom hproperty
    dsimp only at hread
    rw [← runText_eq] at hread
    split_ifs at hread with htext
    · cases hread
      exact .property hsplit hname hcolon htext
    split at hread
    · rename_i hvalue
      obtain rfl := Except.error.inj hread
      obtain ⟨value, opening, us, rfl, hguards, hfree, hopen, rfl⟩ := fault_of_valueFrom hvalue
      exact .value hsplit hname hcolon htext hguards hfree hopen
    · simp at hread
  · intro hfault
    rw [declaration]
    cases hfault with
    | @colon name us hsplit hname hend =>
      have hproperty : propertyFrom t.offset us = .error ⟨t.offset, .colonMissing⟩ := by
        obtain _ | ⟨u, us⟩ := us
        · rfl
        · rw [propertyFrom]
          rcases hend u rfl with hkind | hkind | hkind <;> simp [hkind]
      rw [hsplit, propertyFrom_property hname, hproperty]
      rfl
    | property hsplit hname hcolon htext =>
      rw [hsplit, propertyFrom_colon hname hcolon]
      simp [← runText_eq, htext]
    | value hsplit hname hcolon htext hguards hfree hopen =>
      rw [hsplit, propertyFrom_colon hname hcolon]
      simp only [← runText_eq, htext, if_false]
      rw [valueFrom_value hguards hfree, valueFrom, if_pos hopen]
      rfl

theorem declaration_unended {t : Token} {ts : List Token} (hunended : Unended (t :: ts)) :
    ∃ item, declaration t ts = .ok (item, []) := by
  generalize hrun : t :: ts = run at hunended
  obtain ⟨hname, htext, hcolon, hguards, hopen⟩ := hunended
  rename_i name value colon
  have hvalue (property : Text) : valueFrom property 0 value = .ok (value, []) := by
    have hread := valueFrom_value hguards hopen property []
    rw [List.append_nil, valueFrom] at hread
    simpa [prepend, Except.map] using hread
  rw [declaration, hrun, propertyFrom_colon hname hcolon]
  simp only [← runText_eq, htext, if_false, hvalue]
  exact ⟨_, rfl⟩

/-! ## Lists of entries -/

/-- The list that a reader is in, with the token that opened its block. -/
inductive Level where
  | rules (opening : Option Token)
  | frames (opening : Token)
  | items (opening : Token)

/-- The token that opened the block. -/
def Level.opening? : Level → Option Token
  | .rules opening => opening
  | .frames opening => some opening
  | .items opening => some opening

/-- A token starts a rule with selectors.  An at-keyword does so in an animation only. -/
def Level.StartsRule : Level → Token → Prop
  | .rules _, t => t.kind ∉ betweenEntries ∧ t.kind ≠ .comment ∧ t.kind ≠ .rightBrace ∧
      t.kind ≠ .atKeyword
  | .frames _, t => t.kind ∉ betweenEntries ∧ t.kind ≠ .comment ∧ t.kind ≠ .rightBrace
  | .items _, _ => False

/-- A token starts a declaration. -/
def StartsDeclaration (t : Token) : Prop :=
  t.kind ∉ betweenEntries ∧ t.kind ≠ .comment ∧ t.kind ≠ .atKeyword ∧ t.kind ≠ .leftBrace ∧
    t.kind ≠ .rightBrace

/-- A run is read without a fault from the start of a stylesheet, and leaves the reader in a
list. -/
inductive Leads : List Token → Level → Prop where
  | start : Leads [] (.rules none)
  | rules {before us : List Token} {opening : Option Token} {rules : List Rule}
      (hbefore : Leads before (.rules opening)) (hrules : RuleSeq anyRun us rules) :
      Leads (before ++ us) (.rules opening)
  | media {before pre : List Token} {outer : Option Token} {t opening : Token}
      (hbefore : Leads before (.rules outer)) (hname : IsMedia t) (hpre : IsPrelude pre)
      (hopen : opening.kind = .leftBrace) :
      Leads (before ++ t :: (pre ++ [opening])) (.rules (some opening))
  | keyframes {before pre : List Token} {outer : Option Token} {t opening : Token}
      (hbefore : Leads before (.rules outer)) (hname : IsKeyframes t) (hpre : IsPrelude pre)
      (hopen : opening.kind = .leftBrace) :
      Leads (before ++ t :: (pre ++ [opening])) (.frames opening)
  | frames {before us : List Token} {opening : Token} {rules : List Rule}
      (hbefore : Leads before (.frames opening)) (hrules : KeyframeSeq anyRun us rules) :
      Leads (before ++ us) (.frames opening)
  | rule {before pre : List Token} {parts : List (List Token)} {level : Level} {t opening : Token}
      (hbefore : Leads before level) (hstart : level.StartsRule t) (hpre : IsPrelude (t :: pre))
      (hparts : Parted (t :: pre) parts) (htext : textsOf parts ≠ [])
      (hopen : opening.kind = .leftBrace) :
      Leads (before ++ t :: (pre ++ [opening])) (.items opening)
  | pass {before : List Token} {opening t : Token} (hbefore : Leads before (.items opening))
      (hpass : t.kind ∈ betweenEntries ∨ t.kind = .comment) :
      Leads (before ++ [t]) (.items opening)
  | declaration {before us : List Token} {opening semicolon : Token} {item : Item}
      (hbefore : Leads before (.items opening)) (hitem : Declares anyRun us item)
      (hend : semicolon.kind = .semicolon) :
      Leads (before ++ (us ++ [semicolon])) (.items opening)

/-- A prelude starts in a list: behind the keyword of a media query or an animation, or with the
first token of a rule. -/
inductive StartsPrelude : Level → List Token → List Token → Prop where
  | keyword {opening : Option Token} {t : Token} {ts : List Token}
      (hname : IsMedia t ∨ IsKeyframes t) : StartsPrelude (.rules opening) (t :: ts) ts
  | rule {level : Level} {t : Token} {ts : List Token} (hstart : level.StartsRule t) :
      StartsPrelude level (t :: ts) (t :: ts)

/-- What does not belong into a list, and the fault it is.  The source has `eof` bytes. -/
inductive Wrong (eof : Nat) : Level → List Token → Fault → Prop where
  | unclosed {level : Level} {opening : Token} (hopening : level.opening? = some opening) :
      Wrong eof level [] ⟨opening.offset, .missingClose⟩
  | unendedAtRule {opening t : Token} {ts : List Token} (hname : IsOther t)
      (hstatement : IsStatement ts) :
      Wrong eof (.rules (some opening)) (t :: ts) ⟨opening.offset, .missingClose⟩
  | unendedValue {opening t : Token} {ts : List Token} (hstart : StartsDeclaration t)
      (hunended : Unended (t :: ts)) :
      Wrong eof (.items opening) (t :: ts) ⟨opening.offset, .missingClose⟩
  | close {t : Token} {ts : List Token} (hclose : t.kind = .rightBrace) :
      Wrong eof (.rules none) (t :: ts) ⟨t.offset, .unexpectedClose⟩
  | raw {opening : Option Token} {t : Token} {ts : List Token} {fault : Fault}
      (hname : IsOther t) (hraw : RawFault ts fault) :
      Wrong eof (.rules opening) (t :: ts) fault
  | prelude {level : Level} {ts us : List Token} {fault : Fault}
      (hstart : StartsPrelude level ts us) (hprelude : PreludeFault eof us fault) :
      Wrong eof level ts fault
  | selector {level : Level} {t opening : Token} {ts pre us : List Token}
      {parts : List (List Token)} (hstart : level.StartsRule t)
      (hsplit : t :: ts = pre ++ opening :: us) (hpre : IsPrelude pre)
      (hopen : opening.kind = .leftBrace) (hparts : Parted pre parts) (htext : textsOf parts = []) :
      Wrong eof level (t :: ts) ⟨t.offset, .selectorMissing⟩
  | atRule {opening t : Token} {ts : List Token} (hkind : t.kind = .atKeyword) :
      Wrong eof (.items opening) (t :: ts) ⟨t.offset, .atRuleInBlock t.text⟩
  | opens {opening t : Token} {ts : List Token} (hkind : t.kind = .leftBrace) :
      Wrong eof (.items opening) (t :: ts) ⟨t.offset, .unexpectedOpen⟩
  | declaration {opening t : Token} {ts : List Token} {fault : Fault}
      (hstart : StartsDeclaration t) (hitem : DeclarationFault t ts fault) :
      Wrong eof (.items opening) (t :: ts) fault

/-- Behind `before`, which leads into some list, the tokens go wrong with a fault. -/
def GoesWrong (eof : Nat) (before ts : List Token) (fault : Fault) : Prop :=
  ∃ run behind level, ts = run ++ behind ∧ Leads (before ++ run) level ∧
    Wrong eof level behind fault

section Lists

variable {eof : Nat} {before ts us : List Token} {level : Level} {opening : Token} {fault : Fault}

theorem Wrong.goesWrong (hwrong : Wrong eof level ts fault) (hbefore : Leads before level) :
    GoesWrong eof before ts fault :=
  ⟨[], ts, level, rfl, by rwa [List.append_nil], hwrong⟩

theorem GoesWrong.prepend (hwrong : GoesWrong eof (before ++ us) ts fault) :
    GoesWrong eof before (us ++ ts) fault := by
  obtain ⟨run, behind, level, rfl, hleads, hbehind⟩ := hwrong
  refine ⟨us ++ run, behind, level, by rw [List.append_assoc], ?_, hbehind⟩
  rwa [← List.append_assoc]

/-! ## From faults to their places -/

theorem goesWrong_of_itemList (hbefore : Leads before (.items opening))
    (hread : itemList opening.offset ts = .error fault) : GoesWrong eof before ts fault := by
  generalize hopened : opening.offset = opened at hread
  fun_induction itemList opened ts generalizing before with
  | case1 =>
    obtain rfl := Except.error.inj hread
    rw [← hopened]
    exact Wrong.goesWrong (.unclosed rfl) hbefore
  | case2 t ts hskip ih =>
    exact (ih (hbefore.pass (.inl (isSkipped_iff_mem.mp hskip))) hread).prepend
  | case3 => simp at hread
  | case4 t ts hskip hkind fault' htail ih =>
    obtain rfl := Except.error.inj hread
    exact (ih (hbefore.pass (.inr hkind)) htail).prepend
  | case5 => simp at hread
  | case6 t ts hskip hkind =>
    obtain rfl := Except.error.inj hread
    exact Wrong.goesWrong (.atRule hkind) hbefore
  | case7 t ts hskip hkind =>
    obtain rfl := Except.error.inj hread
    exact Wrong.goesWrong (.opens hkind) hbefore
  | case8 t ts hskip fault' hfirst hclose hcomment hkeyword hopen =>
    obtain rfl := Except.error.inj hread
    have hstart : StartsDeclaration t :=
      ⟨mt isSkipped_iff_mem.mpr hskip, hcomment, hkeyword, hopen, hclose⟩
    exact Wrong.goesWrong (.declaration hstart (declaration_eq_error_iff.mp hfirst)) hbefore
  | case9 t ts hskip item behind hfirst _ fault' htail hclose hcomment hkeyword hopen ih =>
    obtain rfl := Except.error.inj hread
    have hskip := Bool.eq_false_iff.mpr hskip
    obtain ⟨rfl, hunended⟩ | ⟨us, hdeclares, hend⟩ := declares_of_declaration
      (leadsEntry_cons.mpr ⟨hskip, hcomment⟩) (leadsPlain_cons.mpr hkeyword) hfirst
    · rw [itemList] at htail
      obtain rfl := Except.error.inj htail
      rw [← hopened]
      exact Wrong.goesWrong
        (.unendedValue ⟨isSkipped_eq_false_iff.mp hskip, hcomment, hkeyword, hopen, hclose⟩
          hunended) hbefore
    rcases hend with ⟨semicolon, hsplit, hkind⟩ | ⟨hsplit, brace, behind, rfl, hkind⟩
    · rw [hsplit, ← List.singleton_append, ← List.append_assoc]
      exact (ih (hbefore.declaration hdeclares hkind) htail).prepend
    · -- the brace that ends the declaration closes the block, so there is no fault behind it
      rw [itemList] at htail
      simp [hkind, TokenKind.isSkipped] at htail
  | case10 => simp at hread

theorem goesWrong_of_block {t : Token} (hbefore : Leads before level)
    (hstart : level.StartsRule t) (hread : block eof t ts = .error fault) :
    GoesWrong eof before (t :: ts) fault := by
  rw [block] at hread
  split at hread
  · rename_i hprelude
    obtain rfl := Except.error.inj hread
    exact Wrong.goesWrong (.prelude (.rule hstart) (prelude_eq_error_iff.mp hprelude)) hbefore
  rename_i pre opened body hprelude
  obtain ⟨run, opening, hsplit, hpre, hopen, rfl, rfl⟩ := prelude_eq_ok_iff.mp hprelude
  dsimp only at hread
  have hparts := parted_splitTopLevel run
  rw [selectorsOf_withoutComments, ← hparts.textsOf_eq] at hread
  split_ifs at hread with htext
  · obtain rfl := Except.error.inj hread
    exact Wrong.goesWrong (.selector hstart hsplit hpre hopen hparts htext) hbefore
  split at hread
  · rename_i hitems
    obtain rfl := Except.error.inj hread
    obtain _ | ⟨u, run⟩ := run
    · exact absurd (by decide) htext
    simp only [List.cons_append, List.cons.injEq] at hsplit
    obtain ⟨rfl, rfl⟩ := hsplit
    have hleads : GoesWrong eof _ body _ :=
      goesWrong_of_itemList (hbefore.rule hstart hpre hparts htext hopen) hitems
    simpa using hleads.prepend
  · simp at hread

theorem goesWrong_of_keyframeList (hbefore : Leads before (.frames opening))
    (hread : keyframeList eof opening.offset ts = .error fault) :
    GoesWrong eof before ts fault := by
  generalize hopened : opening.offset = opened at hread
  fun_induction keyframeList eof opened ts generalizing before with
  | case1 =>
    obtain rfl := Except.error.inj hread
    rw [← hopened]
    exact Wrong.goesWrong (.unclosed rfl) hbefore
  | case2 t ts hskip ih =>
    exact (ih (hbefore.frames (.skip (isSkipped_iff_mem.mp hskip) .nil)) hread).prepend
  | case3 => simp at hread
  | case4 t ts hskip hkind fault' htail ih =>
    obtain rfl := Except.error.inj hread
    exact (ih (hbefore.frames (.comment hkind .nil)) htail).prepend
  | case5 => simp at hread
  | case6 t ts hskip fault' hfirst hclose hcomment =>
    obtain rfl := Except.error.inj hread
    exact goesWrong_of_block hbefore ⟨mt isSkipped_iff_mem.mpr hskip, hcomment, hclose⟩ hfirst
  | case7 t ts hskip frame behind hfirst _ fault' htail hclose hcomment ih =>
    obtain rfl := Except.error.inj hread
    obtain ⟨us, rfl, hblock⟩ := qualifies_of_block
      (leadsEntry_cons.mpr ⟨Bool.eq_false_iff.mpr hskip, hcomment⟩) hfirst
    have hframe : KeyframeSeq anyRun (t :: us) [.keyframe frame] := by
      simpa using KeyframeSeq.keyframe hblock .nil
    exact (ih (hbefore.frames hframe) htail).prepend
  | case8 => simp at hread

theorem map_eq_error_iff {ε α β : Type} {f : α → β} {x : Except ε α} {e : ε} :
    x.map f = .error e ↔ x = .error e := by
  cases x <;> simp [Except.map]

/-- Where a rule goes wrong.  The blocks of media queries are left to `hblocks`. -/
theorem goesWrong_of_readRule {outer : Option Token} {t : Token}
    (hbefore : Leads before (.rules outer)) (hskip : t.kind.isSkipped = false)
    (hclose : t.kind ≠ .rightBrace)
    (hblocks : ∀ {before opening us}, us.length ≤ ts.length →
      Leads before (.rules (some opening)) →
      readRules eof (some opening.offset) us = .error fault → GoesWrong eof before us fault)
    (hread : readRule eof t ts = .error fault) : GoesWrong eof before (t :: ts) fault := by
  by_cases hcomment : t.kind = .comment
  · rw [readRule_comment hcomment] at hread
    simp at hread
  by_cases hkeyword : t.kind = .atKeyword
  · obtain ⟨hname, -⟩ | ⟨hname, -⟩ | ⟨hname, -⟩ := atRuleOf_cases hkeyword
    · rw [readRule_media hname] at hread
      split at hread
      · rename_i hprelude
        obtain rfl := Except.error.inj hread
        have hfault := prelude_eq_error_iff.mp hprelude
        exact Wrong.goesWrong (.prelude (.keyword (.inl hname)) hfault) hbefore
      rename_i pre opened body hprelude
      obtain ⟨run, opening, rfl, hpre, hopen, rfl, rfl⟩ := prelude_eq_ok_iff.mp hprelude
      have hshorter : body.length ≤ (run ++ opening :: body).length := by
        simp only [List.length_append, List.length_cons]
        omega
      have hinner := hblocks hshorter (hbefore.media hname hpre hopen) (map_eq_error_iff.mp hread)
      simpa using hinner.prepend
    · rw [readRule_keyframes hname] at hread
      split at hread
      · rename_i hprelude
        obtain rfl := Except.error.inj hread
        have hfault := prelude_eq_error_iff.mp hprelude
        exact Wrong.goesWrong (.prelude (.keyword (.inr hname)) hfault) hbefore
      rename_i pre opened body hprelude
      obtain ⟨run, opening, rfl, hpre, hopen, rfl, rfl⟩ := prelude_eq_ok_iff.mp hprelude
      have hinner := goesWrong_of_keyframeList (hbefore.keyframes hname hpre hopen)
        (map_eq_error_iff.mp hread)
      simpa using hinner.prepend
    · rw [readRule_other hname, map_eq_error_iff, rawFrom_eq_error_iff] at hread
      exact Wrong.goesWrong (.raw hname hread) hbefore
  · rw [readRule_style hcomment hkeyword, map_eq_error_iff] at hread
    exact goesWrong_of_block hbefore
      ⟨isSkipped_eq_false_iff.mp hskip, hcomment, hclose, hkeyword⟩ hread

/-- A fault has its place. -/
theorem goesWrong_of_readRules {outer : Option Token} (hbefore : Leads before (.rules outer))
    (hread : readRules eof (outer.map Token.offset) ts = .error fault) :
    GoesWrong eof before ts fault := by
  -- The rules behind a first one and the block of a media query are both shorter than `ts`.
  induction hlength : ts.length using Nat.strong_induction_on generalizing before outer ts with
  | _ n ih =>
    subst hlength
    obtain _ | ⟨t, ts⟩ := ts
    · cases outer with
      | none =>
        rw [Option.map_none, readRules_nil_none] at hread
        simp at hread
      | some opening =>
        rw [Option.map_some, readRules_nil_some] at hread
        obtain rfl := Except.error.inj hread
        exact Wrong.goesWrong (.unclosed rfl) hbefore
    by_cases hskip : t.kind.isSkipped = true
    · rw [readRules_skip hskip] at hread
      exact (ih ts.length (by simp)
        (hbefore.rules (.skip (isSkipped_iff_mem.mp hskip) .nil)) hread rfl).prepend
    by_cases hclose : t.kind = .rightBrace
    · cases outer with
      | none =>
        rw [Option.map_none, readRules_close_none hclose] at hread
        obtain rfl := Except.error.inj hread
        exact Wrong.goesWrong (.close hclose) hbefore
      | some opening =>
        rw [Option.map_some, readRules_close hclose] at hread
        simp at hread
    rw [Bool.not_eq_true] at hskip
    rw [readRules_rule hskip hclose] at hread
    split at hread
    · rename_i hfirst
      obtain rfl := Except.error.inj hread
      exact goesWrong_of_readRule hbefore hskip hclose
        (fun hshorter hleads hblock => ih _ (Nat.lt_succ_of_le hshorter) hleads hblock rfl) hfirst
    rename_i first behind hfirst
    rw [map_eq_error_iff] at hread
    obtain ⟨us, rfl, hentry⟩ | ⟨rfl, hname, hstatement, -⟩ :=
      entry_of_readRule hskip (fun _ hblock => reads_of_readRules hblock) hfirst
    · have hshorter : behind.length < (t :: (us ++ behind)).length := by
        simp only [List.length_cons, List.length_append]
        omega
      have hrules : RuleSeq anyRun (t :: us) [first] := by simpa using hentry .nil
      exact (ih behind.length hshorter (hbefore.rules hrules) hread rfl).prepend
    · cases outer with
      | none =>
        rw [Option.map_none, readRules_nil_none] at hread
        simp at hread
      | some opening =>
        rw [Option.map_some, readRules_nil_some] at hread
        obtain rfl := Except.error.inj hread
        exact Wrong.goesWrong (.unendedAtRule hname hstatement) hbefore

/-! ## From places to faults -/

/-- The reader of a list fails. -/
def Fails (eof : Nat) : Level → List Token → Fault → Prop
  | .rules opening, ts, fault => readRules eof (opening.map Token.offset) ts = .error fault
  | .frames opening, ts, fault => keyframeList eof opening.offset ts = .error fault
  | .items opening, ts, fault => itemList opening.offset ts = .error fault

theorem fails_of_block {t : Token} (hstart : level.StartsRule t)
    (hread : block eof t ts = .error fault) : Fails eof level (t :: ts) fault := by
  cases level with
  | rules opening =>
    obtain ⟨hskip, hcomment, hclose, hkeyword⟩ := hstart
    show readRules eof _ (t :: ts) = .error fault
    rw [readRules_rule (isSkipped_eq_false_iff.mpr hskip) hclose, readRule_style hcomment hkeyword,
      hread]
    rfl
  | frames opening =>
    obtain ⟨hskip, hcomment, hclose⟩ := hstart
    show keyframeList eof _ (t :: ts) = .error fault
    rw [keyframeList_keyframe (isSkipped_eq_false_iff.mpr hskip) hcomment hclose, hread]
  | items opening => exact hstart.elim

theorem fails_of_keyword {outer : Option Token} {t : Token}
    (hname : IsMedia t ∨ IsKeyframes t) (hread : prelude eof ts = .error fault) :
    Fails eof (.rules outer) (t :: ts) fault := by
  show readRules eof _ (t :: ts) = .error fault
  rcases hname with hname | hname
  · rw [readRules_rule (by simp [hname.1, TokenKind.isSkipped]) (by simp [hname.1]),
      readRule_media hname, hread]
  · rw [readRules_rule (by simp [hname.kind, TokenKind.isSkipped]) (by simp [hname.kind]),
      readRule_keyframes hname, hread]

theorem fails_of_declaration {t : Token} (hstart : StartsDeclaration t)
    (hread : declaration t ts = .error fault) : Fails eof (.items opening) (t :: ts) fault := by
  obtain ⟨hskip, hcomment, hkeyword, hopen, hclose⟩ := hstart
  show itemList _ (t :: ts) = .error fault
  rw [itemList_declaration (isSkipped_eq_false_iff.mpr hskip) hcomment hkeyword hopen hclose, hread]

theorem fails_of_wrong (hwrong : Wrong eof level ts fault) : Fails eof level ts fault := by
  cases hwrong with
  | unclosed hopening =>
    cases level with
    | rules outer =>
      obtain rfl : outer = some _ := hopening
      exact readRules_nil_some eof _
    | frames opening =>
      obtain rfl := Option.some.inj hopening
      show keyframeList eof _ [] = _
      rw [keyframeList]
    | items opening =>
      obtain rfl := Option.some.inj hopening
      show itemList _ [] = _
      rw [itemList]
  | @unendedAtRule opening t ts hname hstatement =>
    have hread : rawFrom 0 0 ts = .ok (ts, []) := by
      simpa [rawFrom, prepend, Except.map] using rawFrom_statement hstatement 0 []
    show readRules eof (some opening.offset) (t :: ts) = _
    rw [readRules_rule (by simp [hname.1, TokenKind.isSkipped]) (by simp [hname.1]),
      readRule_other hname, hread]
    simp only [Except.map, readRules_nil_some]
  | @unendedValue opening t ts hstart hunended =>
    obtain ⟨hskip, hcomment, hkeyword, hopen, hclose⟩ := hstart
    obtain ⟨item, hitem⟩ := declaration_unended hunended
    show itemList _ (t :: ts) = _
    rw [itemList_declaration (isSkipped_eq_false_iff.mpr hskip) hcomment hkeyword hopen hclose,
      hitem]
    simp only [itemList]
  | close hclose => exact readRules_close_none hclose
  | @raw outer t ts fault hname hraw =>
    show readRules eof _ (t :: ts) = _
    rw [readRules_rule (by simp [hname.1, TokenKind.isSkipped]) (by simp [hname.1]),
      readRule_other hname, rawFrom_eq_error_iff.mpr hraw]
    rfl
  | prelude hstart hprelude =>
    have hread := prelude_eq_error_iff.mpr hprelude
    cases hstart with
    | keyword hname => exact fails_of_keyword hname hread
    | rule hstart => exact fails_of_block hstart (by rw [block, hread])
  | @selector level t opening ts pre us parts hstart hsplit hpre hopen hparts htext =>
    refine fails_of_block hstart ?_
    rw [hparts.textsOf_eq] at htext
    rw [block, hsplit, prelude_isPrelude hpre hopen]
    simp only [selectorsOf_withoutComments, htext, if_true]
  | @atRule opening t ts hkind =>
    show itemList _ (t :: ts) = _
    rw [itemList]
    simp [hkind, TokenKind.isSkipped]
  | @opens opening t ts hkind =>
    show itemList _ (t :: ts) = _
    rw [itemList]
    simp [hkind, TokenKind.isSkipped]
  | declaration hstart hitem =>
    exact fails_of_declaration hstart (declaration_eq_error_iff.mpr hitem)

/-- Keyframes are read in front of a fault. -/
theorem keyframeList_append {demand : Demand} {rules : List Rule}
    (hrules : KeyframeSeq demand us rules) {opened : Nat}
    (hread : keyframeList eof opened ts = .error fault) :
    keyframeList eof opened (us ++ ts) = .error fault := by
  induction hrules with
  | nil => exact hread
  | skip hskip _ ih =>
    rw [List.cons_append, keyframeList, if_pos (isSkipped_iff_mem.mpr hskip), ih]
  | comment hkind _ ih =>
    rw [List.cons_append, keyframeList]
    simp [hkind, TokenKind.isSkipped, ih]
  | @keyframe us vs _ _ first _ ih =>
    obtain ⟨t, tail, rfl, hskip, hcomment, hclose⟩ := first.head
    have hframe := block_qualifies first eof (vs ++ ts)
    rw [List.append_assoc, List.cons_append, keyframeList_keyframe hskip hcomment hclose, hframe]
    simp only [ih]

/-- What leads into a list is read up to it. -/
theorem fails_of_leads (hbefore : Leads before level) (hfails : Fails eof level ts fault) :
    readRules eof none (before ++ ts) = .error fault := by
  induction hbefore generalizing ts with
  | start => exact hfails
  | rules _ hrules ih =>
    rw [List.append_assoc]
    refine ih ?_
    show readRules eof _ _ = .error fault
    rw [readRules_append hrules, map_eq_error_iff]
    exact hfails
  | @media before pre outer t opening _ hname hpre hopen ih =>
    have hprelude := prelude_isPrelude hpre hopen eof ts
    have hblock : readRules eof (some opening.offset) ts = .error fault := hfails
    simp only [List.append_assoc, List.cons_append, List.nil_append]
    refine ih ?_
    show readRules eof _ (t :: (pre ++ opening :: ts)) = .error fault
    rw [readRules_rule (by simp [hname.1, TokenKind.isSkipped]) (by simp [hname.1]),
      readRule_media hname, hprelude]
    simp only [hblock, Except.map]
  | @keyframes before pre outer t opening _ hname hpre hopen ih =>
    have hprelude := prelude_isPrelude hpre hopen eof ts
    have hblock : keyframeList eof opening.offset ts = .error fault := hfails
    simp only [List.append_assoc, List.cons_append, List.nil_append]
    refine ih ?_
    show readRules eof _ (t :: (pre ++ opening :: ts)) = .error fault
    rw [readRules_rule (by simp [hname.kind, TokenKind.isSkipped]) (by simp [hname.kind]),
      readRule_keyframes hname, hprelude]
    simp only [hblock, Except.map]
  | frames _ hrules ih =>
    rw [List.append_assoc]
    exact ih (keyframeList_append hrules hfails)
  | @rule before pre parts level t opening _ hstart hpre hparts htext hopen ih =>
    rw [hparts.textsOf_eq] at htext
    have hprelude := prelude_isPrelude hpre hopen eof ts
    rw [List.cons_append] at hprelude
    have hblock : itemList opening.offset ts = .error fault := hfails
    simp only [List.append_assoc, List.cons_append, List.nil_append]
    refine ih (fails_of_block hstart ?_)
    rw [block, hprelude]
    simp only [selectorsOf_withoutComments, htext, if_false, hblock]
  | @pass before opening t _ hpass ih =>
    have hblock : itemList opening.offset ts = .error fault := hfails
    rw [List.append_assoc]
    refine ih ?_
    show itemList _ (t :: ts) = .error fault
    rw [itemList]
    rcases hpass with hskip | hkind
    · rw [if_pos (isSkipped_iff_mem.mpr hskip), hblock]
    · simp [hkind, TokenKind.isSkipped, hblock]
  | @declaration before us opening semicolon item _ hitem hend ih =>
    obtain ⟨t, tail, rfl, hskip, hcomment, hkeyword, hopen, hclose⟩ := hitem.head
    have hblock : itemList opening.offset ts = .error fault := hfails
    have hread : declaration t (tail ++ semicolon :: ts) = .ok (item, ts) :=
      declaration_declares hitem fun property => by simp [valueFrom, hend]
    simp only [List.append_assoc, List.cons_append, List.nil_append]
    refine ih ?_
    show itemList _ (t :: (tail ++ semicolon :: ts)) = .error fault
    rw [itemList_declaration hskip hcomment hkeyword hopen hclose, hread]
    simp only [hblock]

end Lists

/-! ## The faults of `parse` -/

theorem parseTokens_eq_error_iff {eof : Nat} {ts : List Token} {fault : Fault} :
    parseTokens eof ts = .error fault ↔ GoesWrong eof [] ts fault := by
  rw [parseTokens_eq, map_eq_error_iff]
  constructor
  · intro hread
    exact goesWrong_of_readRules .start hread
  · rintro ⟨run, behind, level, rfl, hleads, hwrong⟩
    exact fails_of_leads hleads (fails_of_wrong hwrong)

/-- A text is refused with an error exactly when its tokens go wrong, and the error is reported
at the place of the fault. -/
theorem parse_eq_error_iff {source : Text} {e : ParseError} :
    parse source = .error e ↔
      ∃ fault, GoesWrong source.length [] (tokenize source) fault ∧
        e = ⟨positionOf source fault.offset, fault.problem⟩ := by
  rw [parse]
  cases hread : parseTokens source.length (tokenize source) with
  | ok rules =>
    simp only [Except.mapError, reduceCtorEq, false_iff]
    rintro ⟨fault, hwrong, -⟩
    rw [parseTokens_eq_error_iff.mpr hwrong] at hread
    simp at hread
  | error fault =>
    simp only [Except.mapError, Except.error.injEq, ← parseTokens_eq_error_iff, hread,
      exists_eq_left']
    exact eq_comm

end PixelRem.Css
