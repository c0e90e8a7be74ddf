import Mathlib
import PixelRem.Proofs.ConfigMaps

/-!
# The keys of a document

The map at the top of a document has every key once (`nodup_read`), although its entries may come
from several maps that are merged into it.  The entries are kept as a map by texts all the time:
adding one is `ConfigMap.put` (`putEntry_text`), and nothing else changes them.

What is said of readings is said of their results, with one rule for each way to put readings
together (`Gives`).
-/

namespace PixelRem.Yaml

/-! ## Results of readings -/

/-- What holds of the result of a reading, if there is one. -/
def Gives {α : Type} (P : α → Prop) (x : Reading α) : Prop :=
  ∀ t r, x.run t = .ok r → P r.1

section Gives

variable {α β : Type} {P : α → Prop}

theorem gives_pure {a : α} (ha : P a) : Gives P (pure a) := by
  intro t r hr
  cases hr
  exact ha

theorem gives_throw (e : Error) : Gives P (throw e) := by
  intro t r hr
  cases hr

theorem Gives.bind {Q : β → Prop} {x : Reading β} {f : β → Reading α} (hx : Gives Q x)
    (hf : ∀ b, Q b → Gives P (f b)) : Gives P (x >>= f) := by
  intro t r hr
  rw [StateT.run_bind] at hr
  cases hfirst : x.run t with
  | error e =>
    rw [hfirst] at hr
    cases hr
  | ok b =>
    rw [hfirst] at hr
    exact hf b.1 (hx t b hfirst) b.2 r hr

/-- What was read before does not matter for a result that is right in any case. -/
theorem gives_bind {x : Reading β} {f : β → Reading α} (hf : ∀ b, Gives P (f b)) :
    Gives P (x >>= f) := by
  have hx : Gives (fun _ => True) x := fun _ _ _ => trivial
  exact hx.bind fun b _ => hf b

end Gives

/-! ## Entries by texts -/

/-- Whether entries are those of a map by texts with every key once. -/
def HasTextKeys (entries : Entries) : Prop :=
  ∃ m : ConfigMap, m.keys.Nodup ∧ entries = m.map fun field => (.text field.1, field.2)

/-- Whether entries stay those of a map by texts. -/
def Keeps (step : Filling → Reading Filling) : Prop :=
  ∀ f, HasTextKeys f.entries → Gives (fun g => HasTextKeys g.entries) (step f)

theorem hasTextKeys_nil : HasTextKeys [] :=
  ⟨[], List.nodup_nil, rfl⟩

theorem putEntry_text (m : ConfigMap) (key : String) (value : ConfigValue) :
    putEntry (.text key) value (m.map fun field => (.text field.1, field.2)) =
      (m.put key value).map fun field => (.text field.1, field.2) := by
  induction m with
  | nil => rfl
  | cons field m ih =>
    rw [List.map_cons, putEntry, ConfigMap.put]
    by_cases hkey : field.1 = key
    · simp [ConfigValue.sameKey, hkey]
    · simp [ConfigValue.sameKey, hkey, ih]

theorem HasTextKeys.put {f : Filling} (hf : HasTextKeys f.entries) (key : String)
    (value : ConfigValue) : HasTextKeys (f.put (.text key) value).entries := by
  obtain ⟨m, hm, hentries⟩ := hf
  refine ⟨m.put key value, ConfigMap.nodup_put hm key value, ?_⟩
  rw [Filling.put, hentries, putEntry_text]

/-- The key of an entry is a text. -/
theorem gives_entryKey (key : Node) :
    Gives (fun found => ∀ value ∈ found, ∃ s, value = .text s) (entryKey true key) := by
  unfold entryKey
  apply gives_bind
  intro value
  rw [if_pos rfl]
  split
  · exact gives_pure (by simp)
  · exact gives_pure (by simp)
  · exact gives_pure (by simp)
  · exact gives_throw _

/-! ## Filling a map -/

theorem keeps_fillOwn (entries : List (Node × Node)) : Keeps (fillOwn true entries) := by
  induction entries with
  | nil =>
    intro f hf
    rw [fillOwn]
    exact gives_pure hf
  | cons entry entries ih =>
    intro f hf
    rw [fillOwn]
    split_ifs
    · exact ih f hf
    · refine (gives_entryKey entry.1).bind ?_
      intro found hfound
      cases found with
      | none => exact ih f hf
      | some value =>
        obtain ⟨s, rfl⟩ := hfound value rfl
        dsimp only
        split_ifs
        · exact ih f hf
        · apply gives_bind
          intro value
          exact ih _ (hf.put s value)

theorem keeps_fill (entries : List (Node × Node)) {own merged : Filling → Reading Filling}
    (hown : Keeps own) (hmerged : Keeps merged) : Keeps (fill entries own merged) := by
  intro f hf
  unfold fill
  apply gives_bind
  intro _
  refine (hown f hf).bind ?_
  intro g hg
  split_ifs
  · have hrest (taken : List ConfigValue) : Gives (fun h : Filling => HasTextKeys h.entries)
        (merged ⟨g.entries, some taken⟩ >>= fun h =>
          pure (Filling.mk h.entries (g.taken.bind fun _ => h.taken))) := by
      refine (hmerged ⟨g.entries, some taken⟩ hg).bind ?_
      intro h hh
      exact gives_pure hh
    dsimp only
    split
    · exact gives_bind hrest
    · exact gives_bind hrest
  · exact gives_pure hg

/-- The functions that add merged maps call each other on parts of a node, so they are taken
together, by the size of what they read. -/
theorem keeps_merged (n : Nat) :
    (∀ entries : List (Node × Node), sizeOf entries < n → Keeps (fillMerged true entries)) ∧
    (∀ node : Node, sizeOf node < n → Keeps (fillFrom true node)) ∧
    (∀ node : Node, sizeOf node < n → Keeps (fillReferred true node)) ∧
    (∀ items : List Node, sizeOf items < n → Keeps (fillAll true items)) := by
  induction n with
  | zero => simp
  | succ n ih =>
    obtain ⟨ihMerged, ihFrom, ihReferred, ihAll⟩ := ih
    have hfill : ∀ entries : List (Node × Node), sizeOf entries < n →
        Keeps (fill entries (fillOwn true entries) (fillMerged true entries)) :=
      fun entries hsize => keeps_fill entries (keeps_fillOwn entries) (ihMerged entries hsize)
    refine ⟨?_, ?_, ?_, ?_⟩
    · intro entries hsize f hf
      cases entries with
      | nil =>
        rw [fillMerged]
        exact gives_pure hf
      | cons entry entries =>
        obtain ⟨key, node⟩ := entry
        simp only [List.cons.sizeOf_spec, Prod.mk.sizeOf_spec] at hsize
        rw [fillMerged]
        split_ifs
        · exact ihFrom node (by omega) f hf
        · exact ihMerged entries (by omega) f hf
    · intro node hsize f hf
      cases node with
      | scalar tag plain text =>
        rw [fillFrom]
        exact gives_throw _
      | endless name =>
        rw [fillFrom]
        exact gives_throw _
      | list items =>
        simp only [Node.list.sizeOf_spec] at hsize
        rw [fillFrom]
        exact ihAll items (by omega) f hf
      | map entries =>
        simp only [Node.map.sizeOf_spec] at hsize
        rw [fillFrom]
        apply gives_bind
        intro _
        exact hfill entries (by omega) f hf
      | reference name target =>
        simp only [Node.reference.sizeOf_spec] at hsize
        rw [fillFrom]
        exact ihReferred target (by omega) f hf
    · intro node hsize f hf
      cases node with
      | map entries =>
        simp only [Node.map.sizeOf_spec] at hsize
        rw [fillReferred]
        apply gives_bind
        intro _
        apply gives_bind
        intro _
        apply gives_bind
        intro _
        refine (hfill entries (by omega) f hf).bind ?_
        intro g hg
        apply gives_bind
        intro _
        exact gives_pure hg
      | _ =>
        rw [fillReferred]
        · exact gives_throw _
        · simp
    · intro items hsize f hf
      cases items with
      | nil =>
        rw [fillAll]
        exact gives_pure hf
      | cons item items =>
        simp only [List.cons.sizeOf_spec] at hsize
        cases item with
        | map entries =>
          simp only [Node.map.sizeOf_spec] at hsize
          rw [fillAll]
          apply gives_bind
          intro _
          refine (hfill entries (by omega) f hf).bind ?_
          intro g hg
          exact ihAll items (by omega) g hg
        | reference name target =>
          simp only [Node.reference.sizeOf_spec] at hsize
          rw [fillAll]
          refine (ihReferred target (by omega) f hf).bind ?_
          intro g hg
          exact ihAll items (by omega) g hg
        | _ =>
          rw [fillAll]
          · exact gives_throw _
          · simp
          · simp

theorem keeps_fillMerged (entries : List (Node × Node)) : Keeps (fillMerged true entries) :=
  (keeps_merged (sizeOf entries + 1)).1 entries (Nat.lt_succ_self _)

/-! ## Documents -/

theorem keys_settleFields (fields : ConfigMap) :
    ConfigMap.keys (settleFields fields) = fields.keys := by
  induction fields with
  | nil => rfl
  | cons field fields ih =>
    rw [settleFields]
    exact congrArg (field.1 :: ·) ih

theorem gives_topFields (root : Node) :
    Gives (fun m : ConfigMap => m.keys.Nodup) (topFields root) := by
  unfold topFields
  apply gives_bind
  intro _
  apply gives_bind
  intro _
  cases root with
  | map entries =>
    have hfill := keeps_fill entries (keeps_fillOwn entries) (keeps_fillMerged entries)
    refine (hfill ⟨[], none⟩ hasTextKeys_nil).bind ?_
    intro f hf
    obtain ⟨m, hm, hentries⟩ := hf
    apply gives_pure
    have hrender : f.entries.map (fun entry => (entry.1.render, entry.2)) = m := by
      rw [hentries, List.map_map]
      exact List.map_id' m
    rw [keys_settleFields, hrender]
    exact hm
  | scalar tag plain text =>
    apply gives_bind
    intro value
    cases value with
    | null => exact gives_pure List.nodup_nil
    | _ => exact gives_throw _
  | _ => exact gives_throw _

/-- Every key of a document stands once in its map. -/
theorem nodup_read {content : Text} {m : ConfigMap} (hread : read content = .ok m) :
    m.keys.Nodup := by
  unfold read at hread
  split at hread
  · exact absurd hread (by simp)
  · rw [← Except.ok.inj hread]
    exact List.nodup_nil
  · rename_i root _
    rw [StateT.run'_eq] at hread
    cases hrun : (topFields root).run ⟨0, 0, 0⟩ with
    | error e =>
      rw [hrun] at hread
      exact absurd hread (by simp)
    | ok r =>
      rw [hrun] at hread
      rw [← Except.ok.inj hread]
      exact gives_topFields root _ r hrun

end PixelRem.Yaml

namespace PixelRem

/-- The layer of a file has every key once. -/
theorem nodup_fileLayer {t : FileTree} {path : String} {file : ConfigMap}
    (hfile : fileLayer t path = .ok file) : file.keys.Nodup := by
  unfold fileLayer at hfile
  split at hfile
  · rw [← Except.ok.inj hfile]
    exact List.nodup_nil
  · exact absurd hfile (by simp)
  · split at hfile
    · rename_i fields hread
      rw [← Except.ok.inj hfile]
      exact Yaml.nodup_read hread
    · exact absurd hfile (by simp)

end PixelRem
