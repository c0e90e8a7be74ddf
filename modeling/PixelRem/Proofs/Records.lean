import Mathlib
import PixelRem.Config.Record

/-!
# Records that are read back

The record of fields has these fields again (`readBack_eq`), with two exceptions.  One empty field
alone is written as nothing and lost, and a carriage return before a line end goes.

Line ends are settled before the fields are read, and this is the same as settling them in each
field (`normalizeLines_write`).  A field is then read in front of any rest that the reader goes on
with (`readFrom_writeField`), whether it has quotes or not.
-/

namespace PixelRem.Record

/-! ## Line ends -/

/-- The carriage return. -/
def carriage : UInt8 := ascii '\r'

/-- A field without the carriage returns that stand before a line end. -/
def joinLines : Text → Text
  | [] => []
  | b :: t => if b = carriage ∧ t.head? = some newline then joinLines t else b :: joinLines t

/-- A field with every quote written twice. -/
def doubled (field : Text) : Text :=
  field.flatMap fun b => if b = quote then [quote, quote] else [b]

/-- Whether a byte makes quotes necessary. -/
def isSpecial (b : UInt8) : Bool :=
  b ∈ [comma, quote, newline, carriage]

section Lines

theorem writeField_eq (field : Text) :
    writeField field = if field.any isSpecial then quote :: (doubled field ++ [quote]) else field :=
  rfl

theorem write_cons (field : Text) {fields : List Text} (hfields : fields ≠ []) :
    write (field :: fields) = writeField field ++ comma :: write fields := by
  unfold write
  rw [List.map_cons, List.intercalate_cons_of_ne_nil (by simpa using hfields), List.append_assoc]
  rfl

theorem normalizeLines_cons {b : UInt8} (hb : b ≠ carriage) (t : Text) :
    normalizeLines (b :: t) = b :: normalizeLines t := by
  have hne : ¬b = ascii '\r' := hb
  simp [normalizeLines, hne]

theorem normalizeLines_append {x : Text} (hx : ∀ b ∈ x, b ≠ carriage) (y : Text) :
    normalizeLines (x ++ y) = x ++ normalizeLines y := by
  induction x with
  | nil => rfl
  | cons b x ih =>
    obtain ⟨hb, hx⟩ := List.forall_mem_cons.mp hx
    rw [List.cons_append, normalizeLines_cons hb, ih hx, List.cons_append]

/-- In front of a byte that is no line end, the line ends of a text are settled alone. -/
theorem normalizeLines_before (x : Text) {c : UInt8} (hc : c ≠ newline) (y : Text) :
    normalizeLines (x ++ c :: y) = joinLines x ++ normalizeLines (c :: y) := by
  induction x with
  | nil => rfl
  | cons b x ih =>
    have hhead : ((x ++ c :: y).isEmpty || decide ((x ++ c :: y).head? = some newline)) =
        decide (x.head? = some newline) := by
      cases x with
      | nil => simp [hc]
      | cons d x => simp
    have hdrop : (decide (b = ascii '\r') && decide (x.head? = some newline)) =
        decide (b = carriage ∧ x.head? = some newline) := (Bool.decide_and _ _).symm
    rw [List.cons_append, normalizeLines, joinLines, hhead, hdrop, ih]
    simp only [decide_eq_true_eq]
    split_ifs <;> rfl

theorem joinLines_of_forall {x : Text} (hx : ∀ b ∈ x, b ≠ carriage) : joinLines x = x := by
  induction x with
  | nil => rfl
  | cons b x ih =>
    obtain ⟨hb, hx⟩ := List.forall_mem_cons.mp hx
    rw [joinLines, if_neg fun h => hb h.1, ih hx]

/-- A field without a carriage return before a line end stays. -/
theorem joinLines_eq_self {x : Text} (hx : ¬[carriage, newline] <:+: x) : joinLines x = x := by
  induction x with
  | nil => rfl
  | cons b x ih =>
    have hrest : ¬[carriage, newline] <:+: x := fun h => hx (h.trans (List.suffix_cons b x).isInfix)
    have hkeep : ¬(b = carriage ∧ x.head? = some newline) := by
      intro ⟨hb, hhead⟩
      obtain ⟨y, rfl⟩ := List.head?_eq_some_iff.mp hhead
      exact hx ⟨[], y, by simp [hb]⟩
    rw [joinLines, if_neg hkeep, ih hrest]

theorem joinLines_ne_nil {x : Text} (hx : x ≠ []) : joinLines x ≠ [] := by
  induction x with
  | nil => exact absurd rfl hx
  | cons b x ih =>
    rw [joinLines]
    split_ifs with hdrop
    · refine ih ?_
      rintro rfl
      exact absurd hdrop.2 (by simp)
    · simp

theorem head?_doubled (x : Text) : (doubled x).head? = x.head? := by
  cases x with
  | nil => rfl
  | cons b x => by_cases hb : b = quote <;> simp [doubled, hb]

theorem joinLines_doubled (x : Text) : joinLines (doubled x) = doubled (joinLines x) := by
  induction x with
  | nil => rfl
  | cons b x ih =>
    by_cases hb : b = quote
    · have hquote : quote ≠ carriage := by decide
      have hcons : doubled (quote :: x) = quote :: quote :: doubled x := rfl
      rw [hb, hcons, joinLines, joinLines, joinLines, if_neg (fun h => hquote h.1),
        if_neg (fun h => hquote h.1), if_neg (fun h => hquote h.1), ih]
      rfl
    · have hcons (y : Text) : doubled (b :: y) = b :: doubled y := by simp [doubled, hb]
      rw [hcons, joinLines, joinLines, head?_doubled, ih]
      split_ifs
      · rfl
      · rw [hcons]

theorem any_joinLines (x : Text) : (joinLines x).any isSpecial = x.any isSpecial := by
  induction x with
  | nil => rfl
  | cons b x ih =>
    rw [joinLines]
    split_ifs with hdrop
    · -- the line end behind the carriage return is special too
      obtain ⟨y, rfl⟩ := List.head?_eq_some_iff.mp hdrop.2
      have hnewline : isSpecial newline = true := by decide
      rw [ih]
      simp [hnewline]
    · rw [List.any_cons, List.any_cons, ih]

theorem ne_carriage_of_any {x : Text} (hx : ¬x.any isSpecial = true) : ∀ b ∈ x, b ≠ carriage := by
  intro b hb heq
  apply hx
  rw [List.any_eq_true]
  exact ⟨b, hb, heq ▸ by decide⟩

theorem normalizeLines_writeField (field rest : Text) :
    normalizeLines (writeField field ++ rest) =
      writeField (joinLines field) ++ normalizeLines rest := by
  rw [writeField_eq, writeField_eq, any_joinLines]
  split_ifs with hspecial
  · have hquote : quote ≠ carriage := by decide
    have hline : quote ≠ newline := by decide
    have hsplit (x : Text) : quote :: (x ++ [quote]) ++ rest = quote :: (x ++ quote :: rest) := by
      simp
    rw [hsplit, normalizeLines_cons hquote, normalizeLines_before _ hline, joinLines_doubled,
      normalizeLines_cons hquote]
    simp
  · have hplain := ne_carriage_of_any hspecial
    rw [joinLines_of_forall hplain, normalizeLines_append hplain]

/-- Settling the line ends of a record settles them in its fields. -/
theorem normalizeLines_write (fields : List Text) :
    normalizeLines (write fields) = write (fields.map joinLines) := by
  induction fields with
  | nil => rfl
  | cons field fields ih =>
    by_cases hfields : fields = []
    · subst hfields
      have hone (x : Text) : write [x] = writeField x ++ [] := by simp [write]
      rw [hone, normalizeLines_writeField, List.map_singleton, hone]
      rfl
    · have hcomma : comma ≠ carriage := by decide
      rw [write_cons field hfields, normalizeLines_writeField, normalizeLines_cons hcomma, ih,
        List.map_cons, write_cons _ (by simpa using hfields)]

end Lines

/-! ## Fields -/

section Fields

/-- Adds bytes to the current field. -/
def State.pushAll (st : State) (bytes : Text) : State :=
  { st with field := bytes.reverse ++ st.field }

theorem pushAll_nil (st : State) : st.pushAll [] = st := rfl

theorem pushAll_cons (st : State) (b : UInt8) (bytes : Text) :
    st.pushAll (b :: bytes) = (st.push b).pushAll bytes := by
  simp [State.pushAll, State.push]

/-- The places at which a field may end. -/
def Place.mayEnd : Place → Bool
  | .quoted => false
  | _ => true

theorem readFrom_end (st : State) {place : Place} (hplace : place.mayEnd = true)
    (line column : Nat) : readFrom st place line column [] = .ok st.record := by
  cases place with
  | quoted => exact absurd hplace (by decide)
  | start | bare | behindQuote => rfl

theorem readFrom_comma (st : State) {place : Place} (hplace : place.mayEnd = true)
    (line column : Nat) (t : Text) :
    readFrom st place line column (comma :: t) =
      readFrom st.next .start line (column + 1) t := by
  have hquote : comma ≠ quote := by decide
  cases place with
  | quoted => exact absurd hplace (by decide)
  | start | bare => simp [readFrom]
  | behindQuote => simp [readFrom, hquote]

theorem readFrom_bare (st : State) {place : Place} (hplace : place = .start ∨ place = .bare)
    (line column : Nat) {field : Text} (hfield : ¬field.any isSpecial = true) (rest : Text) :
    ∃ place' column', place'.mayEnd = true ∧ readFrom st place line column (field ++ rest) =
      readFrom (st.pushAll field) place' line column' rest := by
  induction field generalizing st place column with
  | nil =>
    refine ⟨place, column, ?_, rfl⟩
    rcases hplace with rfl | rfl <;> rfl
  | cons b field ih =>
    rw [List.any_cons, Bool.or_eq_true, not_or] at hfield
    obtain ⟨hb, hfield⟩ := hfield
    have hstep : readFrom st place line column (b :: (field ++ rest)) =
        readFrom (st.push b) .bare line (column + 1) (field ++ rest) := by
      have hcomma : b ≠ comma := fun h => hb (h ▸ by decide)
      have hnewline : b ≠ newline := fun h => hb (h ▸ by decide)
      have hquote : b ≠ quote := fun h => hb (h ▸ by decide)
      rcases hplace with rfl | rfl <;> simp [readFrom, hcomma, hnewline, hquote]
    rw [List.cons_append, hstep, pushAll_cons]
    exact ih (st.push b) (.inr rfl) (column + 1) hfield

theorem readFrom_quoted (st : State) (line column : Nat) (field rest : Text) :
    ∃ line' column', readFrom st .quoted line column (doubled field ++ quote :: rest) =
      readFrom (st.pushAll field) .behindQuote line' column' rest := by
  induction field generalizing st line column with
  | nil => exact ⟨line, column + 1, by simp [doubled, readFrom, pushAll_nil]⟩
  | cons b field ih =>
    rw [pushAll_cons]
    by_cases hb : b = quote
    · have hcons : doubled (b :: field) = quote :: quote :: doubled field := by simp [doubled, hb]
      obtain ⟨line', column', hrest⟩ := ih (st.push b) line (column + 1 + 1)
      refine ⟨line', column', ?_⟩
      rw [hcons, ← hrest]
      simp [readFrom, hb]
    · have hcons : doubled (b :: field) = b :: doubled field := by simp [doubled, hb]
      by_cases hline : b = newline
      · have hquote : newline ≠ quote := by decide
        obtain ⟨line', column', hrest⟩ := ih (st.push b) (line + 1) 1
        refine ⟨line', column', ?_⟩
        rw [hcons, ← hrest]
        simp [readFrom, hline, hquote]
      · obtain ⟨line', column', hrest⟩ := ih (st.push b) line (column + 1)
        refine ⟨line', column', ?_⟩
        rw [hcons, ← hrest]
        simp [readFrom, hb, hline]

/-- A written field is read, and the reader goes on behind it. -/
theorem readFrom_writeField (st : State) (line column : Nat) (field rest : Text) :
    ∃ place line' column', place.mayEnd = true ∧
      readFrom st .start line column (writeField field ++ rest) =
        readFrom (st.pushAll field) place line' column' rest := by
  rw [writeField_eq]
  split_ifs with hspecial
  · have hopen : readFrom st .start line column (quote :: (doubled field ++ [quote]) ++ rest) =
        readFrom st .quoted line (column + 1) (doubled field ++ quote :: rest) := by
      have hcomma : quote ≠ comma := by decide
      have hnewline : quote ≠ newline := by decide
      simp [readFrom, hcomma, hnewline]
    obtain ⟨line', column', hrest⟩ := readFrom_quoted st line (column + 1) field rest
    exact ⟨.behindQuote, line', column', rfl, hopen.trans hrest⟩
  · obtain ⟨place, column', hplace, hrest⟩ := readFrom_bare st (.inl rfl) line column hspecial rest
    exact ⟨place, line, column', hplace, hrest⟩

theorem record_pushAll (done : List Text) (start : Nat) (field : Text) :
    (State.pushAll ⟨done, [], start⟩ field).record = done.reverse ++ [field] := by
  simp [State.record, State.next, State.pushAll]

theorem readFrom_write (done : List Text) (start line column : Nat) {fields : List Text}
    (hfields : fields ≠ []) :
    readFrom ⟨done, [], start⟩ .start line column (write fields) =
      .ok (done.reverse ++ fields) := by
  induction fields generalizing done line column with
  | nil => exact absurd rfl hfields
  | cons field fields ih =>
    by_cases hrest : fields = []
    · subst hrest
      have hone : write [field] = writeField field ++ [] := by simp [write]
      obtain ⟨place, line', column', hplace, hread⟩ :=
        readFrom_writeField ⟨done, [], start⟩ line column field []
      rw [hone, hread, readFrom_end _ hplace, record_pushAll]
    · obtain ⟨place, line', column', hplace, hread⟩ :=
        readFrom_writeField ⟨done, [], start⟩ line column field (comma :: write fields)
      have hnext : (State.pushAll ⟨done, [], start⟩ field).next = ⟨field :: done, [], start⟩ := by
        simp [State.next, State.pushAll]
      rw [write_cons field hrest, hread, readFrom_comma _ hplace, hnext, ih _ _ _ hrest]
      simp

/-- A record that is not empty starts with no blank line. -/
theorem exists_write {fields : List Text} (hfields : fields ≠ []) (hempty : fields ≠ [[]]) :
    ∃ b t, write fields = b :: t ∧ b ≠ newline := by
  obtain ⟨field, fields, rfl⟩ := List.exists_cons_of_ne_nil hfields
  have hfirst : ∃ rest, write (field :: fields) = writeField field ++ rest ∧
      (field = [] → rest.head? = some comma) := by
    by_cases hrest : fields = []
    · subst hrest
      exact ⟨[], by simp [write], fun h => absurd (congrArg (fun x => [x]) h) hempty⟩
    · exact ⟨_, write_cons field hrest, fun _ => rfl⟩
  obtain ⟨rest, hwrite, hcomma⟩ := hfirst
  rw [hwrite, writeField_eq]
  split_ifs with hspecial
  · exact ⟨quote, _, rfl, by decide⟩
  · cases field with
    | nil =>
      obtain ⟨t, rfl⟩ := List.head?_eq_some_iff.mp (hcomma rfl)
      exact ⟨comma, t, rfl, by decide⟩
    | cons b field =>
      refine ⟨b, field ++ rest, rfl, ?_⟩
      intro hb
      apply hspecial
      rw [List.any_cons, hb]
      rfl

theorem readLines_write {fields : List Text} (hfields : fields ≠ []) (hempty : fields ≠ [[]])
    (line : Nat) : readLines line (write fields) = .ok fields := by
  obtain ⟨b, t, hwrite, hb⟩ := exists_write hfields hempty
  have hread := readFrom_write [] line line 1 hfields
  rw [hwrite] at hread ⊢
  rw [readLines, if_neg hb]
  exact hread

/-- Fields are read back from their record with their line ends settled, unless there is only an
empty one. -/
theorem readBack_eq {fields : List Text} (hempty : fields ≠ [[]]) :
    readBack fields = fields.map joinLines := by
  unfold readBack read
  rw [normalizeLines_write]
  by_cases hfields : fields = []
  · subst hfields
    rfl
  · rw [readLines_write (by simpa using hfields)]
    · rfl
    · intro hone
      obtain ⟨field, hfield, hjoin⟩ := List.map_eq_singleton_iff.mp hone
      apply hempty
      rw [hfield]
      by_contra hne
      exact joinLines_ne_nil (fun h => hne (by rw [h])) hjoin

end Fields

end PixelRem.Record
