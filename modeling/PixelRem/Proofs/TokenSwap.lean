import Mathlib
import PixelRem.Proofs.Enclosure

/-!
# What may change behind a token

A token stays what it is when what follows the next stop changes.  `Swaps` is what is asked
of the two texts for the sake of escapes, and `Token.Heads.swap` goes through the rules of the
lexer one by one.

White space and marks are told by their first byte, so they stand as tokens wherever they are.
-/

namespace PixelRem.Css

/-! ## Identifiers, functions and addresses -/

theorem identLike?_eq_none_iff {t : Text} : identLike? t = none ↔ identLength t = 0 := by
  rw [identLike?]
  split
  · simp [*]
  · rename_i n hn
    rw [hn]
    split
    · dsimp only
      split_ifs <;> simp
    · simp

theorem identLength_le_of_identLike? {t : Text} {found : TokenKind × Nat}
    (hfound : identLike? t = some found) : identLength t ≤ found.2 := by
  rw [identLike?] at hfound
  split at hfound
  · simp at hfound
  · rename_i n hn
    rw [hn]
    split at hfound
    · dsimp only at hfound
      split_ifs at hfound <;> rw [← Option.some.inj hfound] <;> dsimp only <;> omega
    · rw [← Option.some.inj hfound]

theorem identLike?_ident {t : Text} {n : Nat} (hlength : identLength t = n + 1)
    (hparen : (t.drop (n + 1)).head? ≠ some (ascii '(')) : identLike? t = some (.ident, n + 1) := by
  rw [identLike?, hlength]
  dsimp only
  split
  · rename_i b body hrest
    rw [hrest] at hparen
    exact if_neg fun hb => hparen (by rw [hb]; rfl)
  · rfl

theorem identLike?_paren {t body : Text} {n : Nat} (hlength : identLength t = n + 1)
    (hrest : t.drop (n + 1) = ascii '(' :: body) :
    identLike? t =
      if ((t.take (n + 1)).filter (· != ascii '\\')).map Byte.toLower = utf8 "url" then
        some ((urlBody body).1, n + 2 + (urlBody body).2)
      else some (.function, n + 2) := by
  rw [identLike?, hlength]
  simp only [hrest, if_true]

theorem numeric?_eq_none_iff {t : Text} : numeric? t = none ↔ numberLength t = 0 := by
  rw [numeric?]
  split
  · simp [*]
  · rename_i n hn
    rw [hn]
    dsimp only
    split_ifs
    · simp
    · split <;> simp

section Swap

variable {w p s s' : Text} {kind : TokenKind} (hs : Ends s) (hne : s ≠ []) (hs' : Ends s')

include hs hs'

theorem numberLength_swap : numberLength (w ++ (p ++ s')) = numberLength (w ++ (p ++ s)) := by
  rw [← List.append_assoc, ← List.append_assoc, numberLength_local _ s' hs',
    numberLength_local _ s hs]

theorem head?_swap {c : UInt8} (hc : c ∉ stops) :
    (w ++ (p ++ s')).head? = some c ↔ (w ++ (p ++ s)).head? = some c := by
  rw [← List.append_assoc, ← List.append_assoc, head?_append_ends hc hs', head?_append_ends hc hs]

variable (hspace : ascii '\\' ∈ w → p = [] → KeepsSpace s s')
  (hlone : IsLone p → Unescapable s → Unescapable s')

include hne hspace hlone

theorem numeric?_swap_some (hfound : numeric? (w ++ (p ++ s)) = some (kind, w.length)) :
    numeric? (w ++ (p ++ s')) = some (kind, w.length) := by
  rw [numeric?] at hfound ⊢
  rw [numberLength_swap hs hs']
  cases hnumber : numberLength (w ++ (p ++ s)) with
  | zero =>
    rw [hnumber] at hfound
    simp at hfound
  | succ n =>
    rw [hnumber] at hfound
    dsimp only at hfound ⊢
    have hle : n + 1 ≤ w.length := by
      split_ifs at hfound
      · have hsize : n + 2 = w.length := congrArg Prod.snd (Option.some.inj hfound)
        omega
      · split at hfound
        · have hsize : n + 1 = w.length := congrArg Prod.snd (Option.some.inj hfound)
          omega
        · rename_i k _
          have hsize : n + 1 + (k + 1) = w.length := congrArg Prod.snd (Option.some.inj hfound)
          omega
    rw [List.drop_append_of_le_length hle] at hfound ⊢
    simp only [head?_swap hs hs' (show ascii '%' ∉ stops by decide)]
    split_ifs at hfound ⊢
    · exact hfound
    · cases hident : identLength (w.drop (n + 1) ++ (p ++ s)) with
      | zero =>
        rw [hident] at hfound
        have hsize : n + 1 = w.length := congrArg Prod.snd (Option.some.inj hfound)
        have hnil : w.drop (n + 1) = [] := List.drop_eq_nil_iff.mpr hsize.ge
        rw [hnil, List.nil_append] at hident ⊢
        rw [identLength_zero_swap hs' hlone hident]
        exact hfound
      | succ k =>
        rw [hident] at hfound
        have hsize : n + 1 + (k + 1) = w.length := congrArg Prod.snd (Option.some.inj hfound)
        have hunit : (w.drop (n + 1)).length = k + 1 := by
          rw [List.length_drop]
          omega
        rw [identLength_swap hs hne hs' (fun hmem => hspace (List.mem_of_mem_drop hmem)) hlone
          (by rintro hnil; simp [hnil] at hunit) (by rw [hident, hunit]), hunit]
        exact hfound

/-- A number, a percentage or a dimension stays the same when what follows the next stop
changes. -/
theorem numeric?_swap (hfound : ∀ found, numeric? (w ++ (p ++ s)) = some found →
      found = (kind, w.length)) :
    numeric? (w ++ (p ++ s')) = numeric? (w ++ (p ++ s)) := by
  cases hscanned : numeric? (w ++ (p ++ s)) with
  | none =>
    rw [numeric?_eq_none_iff] at hscanned ⊢
    rw [numberLength_swap hs hs', hscanned]
  | some found =>
    obtain rfl := hfound found hscanned
    exact numeric?_swap_some hs hne hs' hspace hlone hscanned

theorem identLike?_swap_some (hfound : identLike? (w ++ (p ++ s)) = some (kind, w.length)) :
    identLike? (w ++ (p ++ s')) = some (kind, w.length) := by
  cases hlength : identLength (w ++ (p ++ s)) with
  | zero =>
    rw [identLike?_eq_none_iff.mpr hlength] at hfound
    simp at hfound
  | succ n =>
    by_cases hparen : ((w ++ (p ++ s)).drop (n + 1)).head? = some (ascii '(')
    · obtain ⟨behind, hbehind⟩ := List.head?_eq_some_iff.mp hparen
      rw [identLike?_paren hlength hbehind] at hfound
      have hlt : n + 1 < w.length := by
        split_ifs at hfound
        · have hsize : n + 2 + (urlBody behind).2 = w.length :=
            congrArg Prod.snd (Option.some.inj hfound)
          omega
        · have hsize : n + 2 = w.length := congrArg Prod.snd (Option.some.inj hfound)
          omega
      obtain ⟨b, body, hbody, hdrop⟩ := drop_append_cons hlt
      rw [hdrop] at hbehind
      obtain ⟨rfl, rfl⟩ := List.cons.inj hbehind
      -- the parenthesis belongs to the token, so the name ends before it in any case
      have hlength' : identLength (w ++ (p ++ s')) = n + 1 := by
        have hsplit (z : Text) : w ++ (p ++ z) =
            w.take (n + 1) ++ ((ascii '(' :: (body ++ p)) ++ z) := by
          rw [← List.cons_append, ← hbody, List.append_assoc,
            ← List.append_assoc (w.take (n + 1)), List.take_append_drop]
        have hname : (w.take (n + 1)).length = n + 1 := by
          rw [List.length_take]
          omega
        have hparen : ¬ IsLone (ascii '(' :: (body ++ p)) := by
          rintro (hlast | hlast) <;> exact absurd (List.cons.inj hlast).1 (by decide)
        rw [hsplit] at hlength ⊢
        rw [identLength_swap hs hne hs' (by simp) (fun hlast => absurd hlast hparen)
          (by rintro hnil; simp [hnil] at hname) (hlength.trans hname.symm), hname]
      rw [identLike?_paren hlength' (hdrop (p ++ s'))]
      rw [List.take_append_of_le_length hlt.le] at hfound ⊢
      split_ifs at hfound ⊢
      · have hsize : n + 2 + (urlBody (body ++ (p ++ s))).2 = w.length :=
          congrArg Prod.snd (Option.some.inj hfound)
        have hlast : w.length - (n + 1) = body.length + 1 := by
          rw [← List.length_drop, hbody, List.length_cons]
        rw [urlBody_enclosed body (p ++ s) (p ++ s') (List.append_ne_nil_of_right_ne_nil p hne)
          (by omega)]
        exact hfound
      · exact hfound
    · rw [identLike?_ident hlength hparen] at hfound
      have hsize : n + 1 = w.length := congrArg Prod.snd (Option.some.inj hfound)
      have hdrop (z : Text) : (w ++ (p ++ z)).drop (n + 1) = p ++ z := by
        rw [hsize, List.drop_left]
      rw [hdrop] at hparen
      rw [identLike?_ident (n := n)]
      · exact hfound
      · rw [hsize]
        exact identLength_swap hs hne hs' hspace hlone (by rintro rfl; simp at hsize)
          (hlength.trans hsize)
      · rw [hdrop]
        exact fun hhead => hparen ((head?_swap (w := []) hs hs' (by decide)).mp hhead)

/-- An identifier, a function or an address stays the same when what follows the next stop
changes. -/
theorem identLike?_swap (hlone' : IsLone (w ++ p) → Unescapable s → Unescapable s')
    (hfound : ∀ found, identLike? (w ++ (p ++ s)) = some found → found = (kind, w.length)) :
    identLike? (w ++ (p ++ s')) = identLike? (w ++ (p ++ s)) := by
  cases hscanned : identLike? (w ++ (p ++ s)) with
  | none =>
    rw [identLike?_eq_none_iff, ← List.append_assoc] at hscanned ⊢
    exact identLength_zero_swap hs' hlone' hscanned
  | some found =>
    obtain rfl := hfound found hscanned
    exact identLike?_swap_some hs hne hs' hspace hlone hscanned

end Swap

/-- Two rules of which the first that applies counts, where each gives the same as before if it
is the one that counts. -/
theorem or_getD_swap {α : Type} {x y x' y' : Option α} {d a : α} (hscan : (x.or y).getD d = a)
    (hx : (∀ found, x = some found → found = a) → x' = x)
    (hy : (∀ found, y = some found → found = a) → y' = y) : (x'.or y').getD d = a := by
  cases x with
  | some found =>
    rw [hx fun other hother => (Option.some.inj hother).symm.trans hscan]
    exact hscan
  | none =>
    rw [hx (by simp), hy]
    · exact hscan
    · rintro found rfl
      exact hscan

/-! ## Tokens -/

/-- What may change behind a token `w`, where `p` stands between it and the next stop.  An
escape at the end of the token gets no white space that it had not, and a backslash that
escapes nothing stays one. -/
structure Swaps (w p s s' : Text) : Prop where
  ends : Ends s
  ne_nil : s ≠ []
  ends' : Ends s'
  space : ascii '\\' ∈ w → p = [] → KeepsSpace s s'
  lone : IsLone p ∨ IsLone (w ++ p) → Unescapable s → Unescapable s'

/-- Without backslashes anything may change. -/
theorem swaps_of_not_mem {w p s s' : Text} (hslash : ascii '\\' ∉ w ++ p) (hs : Ends s)
    (hne : s ≠ []) (hs' : Ends s') : Swaps w p s s' := by
  have hlone {q : Text} (hq : IsLone q) : ascii '\\' ∈ q := by
    rcases hq with rfl | rfl <;> simp
  refine ⟨hs, hne, hs', fun hmem => absurd (List.mem_append_left p hmem) hslash, fun hlast => ?_⟩
  rcases hlast with hlast | hlast
  · exact absurd (List.mem_append_right w (hlone hlast)) hslash
  · exact absurd (hlone hlast) hslash

/-- Behind the same stop anything may change. -/
theorem swaps_cons {b : UInt8} (hb : b ∈ stops) (w p y z : Text) :
    Swaps w p (b :: y) (b :: z) :=
  ⟨ends_cons.mpr hb, List.cons_ne_nil _ _, ends_cons.mpr hb, fun _ _ hblank => hblank,
    fun _ hnext => hnext⟩

/-- A token other than white space stays what it is when what follows the next stop
changes. -/
theorem Token.Heads.swap {t : Token} {p s s' : Text} (hheads : t.Heads (p ++ s))
    (hkind : t.kind ≠ .whitespace) (hswaps : Swaps t.text p s s') : t.Heads (p ++ s') := by
  obtain ⟨b, tail, htext, hscan⟩ := hheads
  obtain ⟨hs, hne, hs', hspace, hlone⟩ := hswaps
  refine ⟨b, tail, htext, ?_⟩
  rw [htext] at hspace hlone hscan ⊢
  have hrest : p ++ s ≠ [] := List.append_ne_nil_of_right_ne_nil p hne
  have htail : ascii '\\' ∈ tail → p = [] → KeepsSpace s s' := fun hmem =>
    hspace (List.mem_cons_of_mem b hmem)
  have hlone' : IsLone p → Unescapable s → Unescapable s' := fun hlast => hlone (.inl hlast)
  have hlocal {α : Type} {rule : Text → α} (hrule : Local rule) :
      rule (tail ++ (p ++ s')) = rule (tail ++ (p ++ s)) := by
    rw [← List.append_assoc, ← List.append_assoc, hrule _ s' hs', hrule _ s hs]
  have hhead {c : UInt8} (hc : c ∉ stops) :
      (tail ++ (p ++ s')).head? = some c ↔ (tail ++ (p ++ s)).head? = some c :=
    head?_swap hs hs' hc
  have hmark {mark : Text} (hmark : mark.any (stops.contains ·) = false) :
      mark.isPrefixOf (tail ++ (p ++ s')) = mark.isPrefixOf (tail ++ (p ++ s)) := by
    rw [← List.append_assoc, ← List.append_assoc, isPrefixOf_append_ends hmark hs',
      isPrefixOf_append_ends hmark hs]
  have hnumeric : (∀ found, numeric? (b :: (tail ++ (p ++ s))) = some found →
        found = (t.kind, (b :: tail).length)) →
      numeric? (b :: (tail ++ (p ++ s'))) = numeric? (b :: (tail ++ (p ++ s))) :=
    numeric?_swap (w := b :: tail) hs hne hs' hspace hlone'
  have hlike : (∀ found, identLike? (b :: (tail ++ (p ++ s))) = some found →
        found = (t.kind, (b :: tail).length)) →
      identLike? (b :: (tail ++ (p ++ s'))) = identLike? (b :: (tail ++ (p ++ s))) :=
    identLike?_swap (w := b :: tail) hs hne hs' hspace hlone' fun hlast => hlone (.inr hlast)
  rw [scan] at hscan ⊢
  obtain ⟨hb, hrule⟩ | ⟨kind, -, hrule⟩ | ⟨-, hrule⟩ | ⟨-, hrule⟩ | ⟨-, hrule⟩ | ⟨-, hrule⟩ |
    ⟨-, hrule⟩ | ⟨-, hrule⟩ | ⟨-, hrule⟩ | ⟨kind, -, hrule⟩ | ⟨-, hrule⟩ | ⟨-, hrule⟩ | hrule :=
    scan?_cases b
  · rw [hrule] at hscan
    exact absurd (congrArg Prod.fst hscan).symm hkind
  · rw [hrule] at hscan ⊢
    exact hscan
  · -- a hash or a number sign alone
    rw [hrule] at hscan ⊢
    cases hrun : nameRun (tail ++ (p ++ s)) with
    | zero =>
      rw [hrun] at hscan
      have hsize : 1 = (b :: tail).length := congrArg Prod.snd hscan
      obtain rfl : tail = [] := List.eq_nil_of_length_eq_zero (by simpa using hsize.symm)
      rw [List.nil_append] at hrun ⊢
      rw [nameRun_zero_swap hs' hlone' hrun]
      exact hscan
    | succ n =>
      rw [hrun] at hscan
      have hsize : n + 2 = tail.length + 1 := congrArg Prod.snd hscan
      rw [nameRun_swap hne hs' htail hlone' (by omega), ← Nat.succ.inj hsize]
      exact hscan
  · rw [hrule] at hscan ⊢
    have hsize := congrArg Prod.snd hscan
    simp only [Option.getD_some, List.length_cons] at hsize
    rw [stringRun_enclosed b 0 tail (p ++ s) (p ++ s') hrest (by omega)]
    exact hscan
  · rw [hrule] at hscan ⊢
    rw [hnumeric]
    · exact hscan
    · intro found hfound
      rw [hfound] at hscan
      exact hscan
  · rw [hrule] at hscan ⊢
    rw [hmark rfl]
    simp only [hhead (show ascii '-' ∉ stops by decide)]
    split_ifs at hscan ⊢
    · exact hscan
    · have hsize : identLength (b :: (tail ++ (p ++ s))) = tail.length + 1 :=
        congrArg Prod.snd hscan
      have hsame := identLength_swap (v := b :: tail) hs hne hs' hspace hlone' (by simp) hsize
      rw [List.cons_append] at hsame
      rw [hsame]
      rw [hsize] at hscan
      exact hscan
    · exact or_getD_swap hscan hlike hnumeric
  · -- an at-keyword or an at sign alone
    rw [hrule] at hscan ⊢
    cases hident : identLength (tail ++ (p ++ s)) with
    | zero =>
      rw [hident] at hscan
      have hsize : 1 = (b :: tail).length := congrArg Prod.snd hscan
      obtain rfl : tail = [] := List.eq_nil_of_length_eq_zero (by simpa using hsize.symm)
      rw [List.nil_append] at hident ⊢
      rw [identLength_zero_swap hs' hlone' hident]
      exact hscan
    | succ n =>
      rw [hident] at hscan
      have hsize : n + 2 = tail.length + 1 := congrArg Prod.snd hscan
      rw [identLength_swap hs hne hs' htail hlone' (by rintro rfl; simp at hsize) (by omega),
        ← Nat.succ.inj hsize]
      exact hscan
  · cases tail with
    | nil =>
      -- the slash is a token of its own, and it stays one
      have hstar := hhead (show ascii '*' ∉ stops by decide)
      have hdelim (z : Text) (hz : z.head? ≠ some (ascii '*')) : scan? b z = none := by
        rw [hrule]
        cases z with
        | nil => rfl
        | cons c z => exact if_neg fun hc => hz (by rw [hc]; rfl)
      by_cases hcomment : (p ++ s).head? = some (ascii '*')
      · obtain ⟨z, hz⟩ := List.head?_eq_some_iff.mp hcomment
        rw [List.nil_append, hz, hrule] at hscan
        have hsize := congrArg Prod.snd hscan
        simp only [↓reduceIte, Option.getD_some, List.length_cons, List.length_nil] at hsize
        omega
      · rw [List.nil_append, hdelim _ hcomment] at hscan
        rw [hdelim _ (fun hhead => hcomment (hstar.mp hhead))]
        exact hscan
    | cons c tail =>
      rw [hrule] at hscan ⊢
      simp only [List.cons_append] at hscan ⊢
      split_ifs at hscan ⊢
      · have hsize := congrArg Prod.snd hscan
        simp only [Option.getD_some, List.length_cons] at hsize
        rw [commentRun_enclosed tail (p ++ s) (p ++ s') hrest (by rw [id]; omega)]
        exact hscan
      · exact hscan
  · rw [hrule] at hscan ⊢
    rw [hmark rfl]
    exact hscan
  · rw [hrule] at hscan ⊢
    simp only [hhead (show ascii '=' ∉ stops by decide), hhead (show ascii '|' ∉ stops by decide)]
    exact hscan
  · rw [hrule] at hscan ⊢
    rw [hlike]
    · exact hscan
    · intro found hfound
      rw [hfound] at hscan
      exact hscan
  · rw [hrule] at hscan ⊢
    rw [hlocal unicodeRangeBody_local]
    cases hrange : unicodeRangeBody (tail ++ (p ++ s)) with
    | zero =>
      rw [hrange] at hscan
      dsimp only at hscan ⊢
      rw [hlike]
      · exact hscan
      · intro found hfound
        rw [hfound] at hscan
        exact hscan
    | succ n =>
      rw [hrange] at hscan
      exact hscan
  · rw [hrule] at hscan ⊢
    exact or_getD_swap hscan hnumeric hlike

/-! ## White space and marks -/

/-- The kinds of the stops that are not white space. -/
def marks : List TokenKind :=
  [.colon, .semicolon, .comma, .leftBrace, .rightBrace]

/-- The kinds that are told by the first byte: white space, at-keywords, comments and
marks. -/
def led : List TokenKind :=
  .whitespace :: .atKeyword :: .comment :: marks

theorem numeric?_kind {t : Text} {found : TokenKind × Nat} (hfound : numeric? t = some found) :
    found.1 ∈ [TokenKind.number, .percentage, .dimension] := by
  rw [numeric?] at hfound
  split at hfound
  · simp at hfound
  · dsimp only at hfound
    split at hfound
    · simp [← Option.some.inj hfound]
    · split at hfound <;> simp [← Option.some.inj hfound]

theorem urlBody_kind (t : Text) : (urlBody t).1 = .url ∨ (urlBody t).1 = .badUrl := by
  have hbad (n : Nat) : (badUrl t n).1 = .url ∨ (badUrl t n).1 = .badUrl := .inr rfl
  have hclose (n : Nat) : (closeUrl t n).1 = .url ∨ (closeUrl t n).1 = .badUrl := by
    rw [closeUrl]
    split
    · exact .inl rfl
    · split_ifs
      · exact .inl rfl
      · exact hbad _
  rw [urlBody]
  dsimp only
  split
  · exact hclose _
  · split_ifs
    · exact hclose _
    · exact hbad _
    · exact hclose _
    · split
      · split_ifs
        · exact hclose _
        · exact hbad _
      · exact hbad _

theorem identLike?_kind {t : Text} {found : TokenKind × Nat}
    (hfound : identLike? t = some found) :
    found.1 ∈ [TokenKind.ident, .function, .url, .badUrl] := by
  rw [identLike?] at hfound
  split at hfound
  · simp at hfound
  · split at hfound
    · rename_i b body hrest
      dsimp only at hfound
      split_ifs at hfound
      · rcases urlBody_kind body with hkind | hkind <;> simp [← Option.some.inj hfound, hkind]
      · simp [← Option.some.inj hfound]
      · simp [← Option.some.inj hfound]
    · simp [← Option.some.inj hfound]

theorem matchOperator?_kind {b : UInt8} {kind : TokenKind} (hkind : matchOperator? b = some kind) :
    kind ∈ [TokenKind.includeMatch, .dashMatch, .prefixMatch, .suffixMatch, .substringMatch] := by
  unfold matchOperator? at hkind
  split_ifs at hkind <;> simp [← Option.some.inj hkind]

theorem punctuation?_cases {b : UInt8} {kind : TokenKind} (hb : punctuation? b = some kind) :
    b ∈ stops ∧ Byte.isSpace b = false ∧ kind ∈ marks ∨ kind ∉ led := by
  simp only [punctuation?, ite_eq_iff, Option.some.injEq, reduceCtorEq, and_false, or_false] at hb
  obtain ⟨rfl, rfl⟩ | ⟨-, ⟨rfl, rfl⟩ | ⟨-, ⟨rfl, rfl⟩ | ⟨-, ⟨rfl, rfl⟩ | ⟨-, ⟨rfl, rfl⟩ |
    ⟨-, ⟨rfl, rfl⟩ | ⟨-, ⟨rfl, rfl⟩ | ⟨-, ⟨rfl, rfl⟩ | ⟨-, rfl, rfl⟩⟩⟩⟩⟩⟩⟩⟩ := hb <;> decide

theorem marks_subset_led {kind : TokenKind} (hkind : kind ∈ marks) : kind ∈ led :=
  List.mem_append_right [TokenKind.whitespace, .atKeyword, .comment] hkind

theorem punctuation?_stop {b : UInt8} {kind : TokenKind} (hb : punctuation? b = some kind)
    (hkind : kind ∈ marks) : b ∈ stops ∧ Byte.isSpace b = false := by
  rcases punctuation?_cases hb with ⟨hstop, hspace, -⟩ | hbracket
  · exact ⟨hstop, hspace⟩
  · exact absurd (marks_subset_led hkind) hbracket

theorem punctuation?_ne {b : UInt8} {kind : TokenKind} (hled : kind ∈ led) (hmark : kind ∉ marks) :
    punctuation? b ≠ some kind := by
  intro hb
  rcases punctuation?_cases hb with ⟨-, -, hmem⟩ | hbracket
  · exact hmark hmem
  · exact hbracket hled

/-- Only the rule for white space gives white space, only the rule for single bytes gives
a mark, and at-keywords and comments have rules of their own. -/
theorem scan_led {b : UInt8} {t : Text} (hkind : (scan b t).1 ∈ led) :
    Byte.isSpace b = true ∧ scan b t = (.whitespace, 1 + spaceRun t) ∨
      (∃ kind, punctuation? b = some kind ∧ scan b t = (kind, 1)) ∨
      (b = ascii '@' ∧ ∃ n, identLength t = n + 1 ∧ scan b t = (.atKeyword, n + 2)) ∨
      b = ascii '/' ∧ ∃ rest, t = ascii '*' :: rest ∧
        scan b t = (.comment, 2 + commentRun rest) := by
  have hmem {kind : TokenKind} {kinds : List TokenKind} (hin : kind ∈ kinds)
      (hout : kinds.any (led.contains ·) = false) : kind ∉ led := by
    simpa using List.any_eq_false.mp hout kind hin
  have hfound {rule : Option (TokenKind × Nat)} (hrule : scan? b t = rule)
      (hrules : ∀ found, rule = some found → found.1 ∉ led) : False := by
    rw [scan, hrule] at hkind
    cases rule with
    | none => exact absurd hkind (by decide)
    | some found => exact hrules found rfl hkind
  obtain ⟨hb, hrule⟩ | ⟨kind, hb, hrule⟩ | ⟨-, hrule⟩ | ⟨-, hrule⟩ | ⟨-, hrule⟩ | ⟨-, hrule⟩ |
    ⟨hb, hrule⟩ | ⟨hb, hrule⟩ | ⟨-, hrule⟩ | ⟨kind, hb, hrule⟩ | ⟨-, hrule⟩ | ⟨-, hrule⟩ | hrule :=
    scan?_cases b
  · exact .inl ⟨hb, by rw [scan, hrule, Option.getD_some]⟩
  · exact .inr (.inl ⟨kind, hb, by rw [scan, hrule, Option.getD_some]⟩)
  · refine (hfound (hrule t) fun found hsome => ?_).elim
    split at hsome
    · simp at hsome
    · simp [← Option.some.inj hsome, led, marks]
  · refine (hfound (hrule t) fun found hsome => ?_).elim
    rw [← Option.some.inj hsome]
    split_ifs <;> simp [led, marks]
  · exact (hfound (hrule t) fun found hsome => hmem (numeric?_kind hsome) rfl).elim
  · refine (hfound (hrule t) fun found hsome => ?_).elim
    split_ifs at hsome
    · simp [← Option.some.inj hsome, led, marks]
    · simp [← Option.some.inj hsome, led, marks]
    · rcases Option.or_eq_some_iff.mp hsome with hident | ⟨-, hnumber⟩
      · exact hmem (identLike?_kind hident) rfl
      · exact hmem (numeric?_kind hnumber) rfl
  · refine .inr (.inr (.inl ⟨hb, ?_⟩))
    cases hident : identLength t with
    | zero => exact (hfound (hrule t) (by simp [hident])).elim
    | succ n => exact ⟨n, rfl, by rw [scan, hrule, hident]; rfl⟩
  · refine .inr (.inr (.inr ⟨hb, ?_⟩))
    obtain _ | ⟨c, rest⟩ := t
    · exact (hfound (hrule []) (by simp)).elim
    · by_cases hc : c = ascii '*'
      · exact ⟨rest, by rw [hc], by rw [scan, hrule]; simp [hc]⟩
      · exact (hfound (hrule (c :: rest)) (by simp [hc])).elim
  · refine (hfound (hrule t) fun found hsome => ?_).elim
    split_ifs at hsome
    simp [← Option.some.inj hsome, led, marks]
  · refine (hfound (hrule t) fun found hsome => ?_).elim
    split_ifs at hsome
    · rw [← Option.some.inj hsome]
      exact hmem (matchOperator?_kind hb) rfl
    · simp [← Option.some.inj hsome, led, marks]
  · exact (hfound (hrule t) fun found hsome => hmem (identLike?_kind hsome) rfl).elim
  · refine (hfound (hrule t) fun found hsome => ?_).elim
    split at hsome
    · exact hmem (identLike?_kind hsome) rfl
    · simp [← Option.some.inj hsome, led, marks]
  · refine (hfound (hrule t) fun found hsome => ?_).elim
    rcases Option.or_eq_some_iff.mp hsome with hnumber | ⟨-, hident⟩
    · exact hmem (numeric?_kind hnumber) rfl
    · exact hmem (identLike?_kind hident) rfl

/-- A mark comes from the rule for single bytes. -/
theorem scan_mark {b : UInt8} {t : Text} (hkind : (scan b t).1 ∈ marks) :
    ∃ kind, punctuation? b = some kind ∧ scan b t = (kind, 1) := by
  rcases scan_led (marks_subset_led hkind) with ⟨-, hscan⟩ | hmark | ⟨-, n, -, hscan⟩ |
    ⟨-, rest, -, hscan⟩
  · rw [hscan] at hkind
    exact absurd hkind (by simp [marks])
  · exact hmark
  · rw [hscan] at hkind
    exact absurd hkind (by simp [marks])
  · rw [hscan] at hkind
    exact absurd hkind (by simp [marks])

/-- White space comes from the rule for white space. -/
theorem scan_whitespace {b : UInt8} {t : Text} (hkind : (scan b t).1 = .whitespace) :
    Byte.isSpace b = true ∧ scan b t = (.whitespace, 1 + spaceRun t) := by
  rcases scan_led (by rw [hkind]; decide) with hspace | ⟨kind, hb, hscan⟩ | ⟨-, n, -, hscan⟩ |
    ⟨-, rest, -, hscan⟩
  · exact hspace
  · rw [hscan] at hkind
    obtain rfl : kind = .whitespace := hkind
    exact absurd hb (punctuation?_ne (by decide) (by decide))
  · simp [hscan] at hkind
  · simp [hscan] at hkind

theorem scan_comment {b : UInt8} {t : Text} (hkind : (scan b t).1 = .comment) :
    b = ascii '/' ∧ ∃ rest, t = ascii '*' :: rest ∧ scan b t = (.comment, 2 + commentRun rest) := by
  rcases scan_led (by rw [hkind]; decide) with ⟨-, hscan⟩ | ⟨kind, hb, hscan⟩ |
    ⟨-, n, -, hscan⟩ | hcomment
  · simp [hscan] at hkind
  · rw [hscan] at hkind
    obtain rfl : kind = .comment := hkind
    exact absurd hb (punctuation?_ne (by decide) (by decide))
  · simp [hscan] at hkind
  · exact hcomment

theorem scan_atKeyword {b : UInt8} {t : Text} (hkind : (scan b t).1 = .atKeyword) :
    b = ascii '@' ∧ ∃ n, identLength t = n + 1 ∧ scan b t = (.atKeyword, n + 2) := by
  rcases scan_led (by rw [hkind]; decide) with ⟨-, hscan⟩ | ⟨kind, hb, hscan⟩ | hkeyword |
    ⟨-, rest, -, hscan⟩
  · simp [hscan] at hkind
  · rw [hscan] at hkind
    obtain rfl : kind = .atKeyword := hkind
    exact absurd hb (punctuation?_ne (by decide) (by decide))
  · exact hkeyword
  · simp [hscan] at hkind

theorem scan_space {b : UInt8} (hb : Byte.isSpace b = true) (t : Text) :
    scan b t = (.whitespace, 1 + spaceRun t) := by
  rw [scan, scan?.eq_def, if_pos hb, Option.getD_some]

theorem scan_punctuation {b : UInt8} {kind : TokenKind} (hb : punctuation? b = some kind)
    (hspace : Byte.isSpace b = false) (t : Text) : scan b t = (kind, 1) := by
  rw [scan, scan?.eq_def, hspace, hb]
  rfl

/-- A text of white space with something else behind it is one token. -/
theorem heads_blank {w : Text} (hne : w ≠ []) (hw : ∀ b ∈ w, Byte.isSpace b = true) {y : Text}
    (hy : ∀ b ∈ y.head?, Byte.isSpace b = false) (offset : Nat) :
    Token.Heads ⟨.whitespace, w, offset⟩ y := by
  obtain ⟨b, w, rfl⟩ := List.exists_cons_of_ne_nil hne
  refine ⟨b, w, rfl, ?_⟩
  have hrest : y.takeWhile Byte.isSpace = [] := by
    cases y with
    | nil => rfl
    | cons c y => rw [List.takeWhile_cons, hy c rfl]; rfl
  have hrun : spaceRun (w ++ y) = w.length := by
    rw [spaceRun, List.takeWhile_append_of_pos fun c hc => hw c (List.mem_cons_of_mem b hc), hrest,
      List.append_nil]
  rw [scan_space (hw b (by simp)), hrun, List.length_cons, Nat.add_comm]

/-- The text of a white-space token is white space. -/
theorem Token.Heads.blank {t : Token} {y : Text} (hheads : t.Heads y)
    (hkind : t.kind = .whitespace) : t.text ≠ [] ∧ ∀ b ∈ t.text, Byte.isSpace b = true := by
  obtain ⟨b, tail, htext, hscan⟩ := hheads
  rw [htext] at hscan ⊢
  obtain ⟨hb, hrule⟩ := scan_whitespace (show (scan b (tail ++ y)).1 = .whitespace by
    rw [hscan, hkind])
  rw [hrule] at hscan
  have hlength : spaceRun (tail ++ y) = tail.length := by
    have hsize := congrArg Prod.snd hscan
    simp only [List.length_cons] at hsize
    omega
  have htail : (tail ++ y).takeWhile Byte.isSpace = tail :=
    (List.prefix_of_prefix_length_le (List.takeWhile_prefix _) (List.prefix_append tail y)
      hlength.le).eq_of_length hlength
  refine ⟨by simp, fun c hc => ?_⟩
  rcases List.mem_cons.mp hc with rfl | hc
  · exact hb
  · rw [← htail] at hc
    exact List.mem_takeWhile_imp hc

/-- A token other than white space starts with no white space. -/
theorem Token.Heads.solid {t : Token} {y : Text} (hheads : t.Heads y)
    (hkind : t.kind ≠ .whitespace) : ∃ b tail, t.text = b :: tail ∧ Byte.isSpace b = false := by
  obtain ⟨b, tail, htext, hscan⟩ := hheads
  refine ⟨b, tail, htext, ?_⟩
  by_contra hspace
  rw [Bool.not_eq_false] at hspace
  rw [scan_space hspace] at hscan
  exact hkind (congrArg Prod.fst hscan).symm

/-- A mark is a stop and stands as a token wherever it is. -/
theorem Token.Heads.mark {t : Token} {y : Text} (hheads : t.Heads y) (hkind : t.kind ∈ marks) :
    ∃ b ∈ stops, t.text = [b] ∧ Byte.isSpace b = false ∧ ∀ z, t.Heads z := by
  obtain ⟨b, tail, htext, hscan⟩ := hheads
  obtain ⟨kind, hb, hrule⟩ := scan_mark (show (scan b (tail ++ y)).1 ∈ marks by rwa [hscan])
  rw [hrule] at hscan
  obtain rfl : kind = t.kind := congrArg Prod.fst hscan
  have hsize : 1 = t.text.length := congrArg Prod.snd hscan
  obtain rfl : tail = [] := by
    rw [htext, List.length_cons] at hsize
    exact List.eq_nil_of_length_eq_zero (by omega)
  obtain ⟨hstop, hspace⟩ := punctuation?_stop hb hkind
  exact ⟨b, hstop, htext, hspace, fun z =>
    ⟨b, [], htext, by rw [scan_punctuation hb hspace, hsize]⟩⟩

end PixelRem.Css
