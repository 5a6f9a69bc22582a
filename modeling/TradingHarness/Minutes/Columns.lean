import Mathlib.Data.List.Induction
import TradingHarness.Minutes.Document

set_option autoImplicit false

/-! # Columns stored and read

What a document keeps of a column. A path is stored as a constant, as a column of its own or as an alias
of one; reading it back gives the constant, or values that are the same as those of the column. -/

namespace TradingHarness

/-! ## One column -/

theorem map_ofText (column : List Json) (texts : List (Option String))
    (h : column.mapM textOf = some texts) : texts.map ofText = column := by
  induction column generalizing texts with
  | nil =>
      rw [List.mapM_nil] at h
      rw [← Option.some.inj h]
      rfl
  | cons value rest ih =>
      rw [List.mapM_cons] at h
      rcases hvalue : textOf value with _ | text
      · simp [hvalue] at h
      · rcases hrest : rest.mapM textOf with _ | others
        · simp [hvalue, hrest] at h
        · have htexts : text :: others = texts := by simpa [hvalue, hrest] using h
          have hback : ofText text = value := by
            unfold textOf at hvalue
            split at hvalue
            · rw [← Option.some.inj hvalue]
              rfl
            · rw [← Option.some.inj hvalue]
              rfl
            · exact absurd hvalue (by simp)
          rw [← htexts, List.map_cons, ih others hrest, hback]

theorem decodeColumn_encodeColumn (column : List Json) :
    decodeColumn (encodeColumn column) = column := by
  unfold encodeColumn
  rcases htexts : column.mapM textOf with _ | texts
  · rfl
  · simp only
    split
    · show (texts.map _).map _ = column
      rw [List.map_map, ← map_ofText column texts htexts]
      refine List.map_congr_left (fun text hmem => ?_)
      show ofText ((texts.eraseDups[texts.eraseDups.idxOf text]?).getD none) = ofText text
      rw [List.getElem?_idxOf (List.mem_eraseDups.mpr hmem)]
      rfl
    · rfl

/-! ## The parts of a document -/

def DocumentParts.isAlias (parts : DocumentParts) (path : String) : Prop :=
  path ∈ parts.aliases.map Prod.fst

/-- The column a path is stored under, its own or an alias' target. -/
def DocumentParts.resolve (parts : DocumentParts) (path : String) : Option Encoded :=
  parts.columns.lookup ((parts.aliases.lookup path).getD path)

/-- What the parts hold once some paths are added. -/
structure Holds (rows : List MinuteRow) (done : List String) (parts : DocumentParts) : Prop where
  constantKeys : ∀ path ∈ parts.constants.map Prod.fst, path ∈ done
  columnKeys : ∀ path ∈ parts.columns.map Prod.fst, path ∈ done
  aliasKeys : ∀ path, parts.isAlias path → path ∈ done
  aliasNodup : (parts.aliases.map Prod.fst).Nodup
  missingKeys : ∀ path ∈ parts.missing.map Prod.fst, path ∈ done
  constants : ∀ path ∈ done, parts.constants.lookup path
    = if IsConstant rows path then some (firstOf rows path) else none
  missing : ∀ path ∈ done, (parts.missing.lookup path).getD [] = absentFrom (columnOf rows path)
  stored : ∀ path ∈ done, ¬ IsConstant rows path → ∃ column, parts.resolve path
    = some (encodeColumn column) ∧ Json.sameItems column (filled (columnOf rows path)) = true
  targets : ∀ entry ∈ parts.aliases, (parts.columns.lookup entry.2).isSome = true ∧
    ¬ parts.isAlias entry.2
  seen : ∀ entry ∈ parts.seen, parts.columns.lookup entry.2 = some (encodeColumn entry.1) ∧
    ¬ parts.isAlias entry.2

variable (rows : List MinuteRow) (done : List String) (parts : DocumentParts) (path : String)

theorem holds_empty : Holds rows [] {} := by
  refine ⟨?_, ?_, ?_, List.nodup_nil, ?_, ?_, ?_, ?_, ?_, ?_⟩
  all_goals
    intro path h
    exact absurd h List.not_mem_nil

theorem mem_nestedFields (key : String) : key ∈ nestedFields ↔ key = "raw" := List.mem_singleton

theorem mem_pathsOf (key : String) (found : Json) (path : String) (value : Json) :
    (path, value) ∈ pathsOf (key, found) ↔
      (key = "raw" ∧ ∃ fields, found = .obj fields ∧
        ∃ sub, (sub, value) ∈ fields ∧ path = "raw" ++ "." ++ sub) ∨
      ((key = "raw" → ∀ fields, found ≠ .obj fields) ∧ path = key ∧ value = found) := by
  have hplain : (path, value) ∈ [(key, found)] ↔ path = key ∧ value = found := by
    rw [List.mem_singleton, Prod.mk.injEq]
  rcases found with scalar | items | fields
  · show _ ∈ [_] ↔ _
    rw [hplain]
    simp
  · show _ ∈ [_] ↔ _
    rw [hplain]
    simp
  · show _ ∈ (if key ∈ nestedFields then _ else _) ↔ _
    by_cases hkey : key = "raw"
    · subst hkey
      rw [if_pos ((mem_nestedFields _).mpr rfl), List.mem_map]
      simp only [Json.obj.injEq, ne_eq, true_and, forall_true_left]
      constructor
      · rintro ⟨⟨sub, other⟩, hmem, heq⟩
        obtain ⟨rfl, rfl⟩ := Prod.mk.inj heq
        exact Or.inl ⟨fields, rfl, sub, hmem, rfl⟩
      · rintro (⟨_, rfl, sub, hmem, rfl⟩ | ⟨hnone, -⟩)
        · exact ⟨(sub, value), hmem, rfl⟩
        · exact absurd rfl (hnone fields)
    · rw [if_neg (fun hmem => hkey ((mem_nestedFields _).mp hmem)), hplain]
      simp [hkey]

theorem distinct_cell (row : MinuteRow) (path : String) (value : Json)
    (h : cell row path = some value) : value.distinct = true := by
  have hmem := List.mem_reverse.mp (Dict.mem_of_lookup _ _ _ h)
  obtain ⟨⟨key, found⟩, hfield, hpath⟩ := List.mem_flatMap.mp hmem
  have hrow := row.2
  rw [Json.distinct, Bool.and_eq_true, Json.distinctFields_iff] at hrow
  have hfound : found.distinct = true := hrow.2 _ hfield
  rcases (mem_pathsOf key found path value).mp hpath with ⟨-, fields, rfl, sub, hsub, -⟩ |
    ⟨-, -, rfl⟩
  · rw [Json.distinct, Bool.and_eq_true, Json.distinctFields_iff] at hfound
    exact hfound.2 _ hsub
  · exact hfound

theorem sameItems_refl :
    Json.sameItems (filled (columnOf rows path)) (filled (columnOf rows path)) = true := by
  have hdistinct : ∀ column : List (Option Json),
      (∀ value, some value ∈ column → value.distinct = true) →
        Json.distinctItems (filled column) = true := by
    intro column h
    induction column with
    | nil => rfl
    | cons value rest ih =>
        show (Json.distinct (value.getD _) && Json.distinctItems (filled rest)) = true
        rw [ih (fun other hother => h other (List.mem_cons_of_mem _ hother)), Bool.and_true]
        rcases value with _ | value
        · rfl
        · exact h value List.mem_cons_self
  refine Json.eqItems_refl (fun _ => decide_eq_true rfl) _ (hdistinct _ ?_)
  intro value hmem
  obtain ⟨row, -, hcell⟩ := List.mem_map.mp hmem
  exact distinct_cell row path value hcell

theorem mem_keys_concat {α : Type} (entries : List (String × α)) (key : String) (value : α)
    (other : String) :
    other ∈ (entries ++ [(key, value)]).map Prod.fst ↔ other ∈ entries.map Prod.fst ∨ other = key := by
  rw [List.map_append, List.mem_append]
  exact or_congr_right List.mem_singleton

theorem lookup_concat_ne {α : Type} (entries : List (String × α)) (key : String) (value : α)
    (other : String) (hkey : key ∉ entries.map Prod.fst) (h : other ≠ key) :
    (entries ++ [(key, value)]).lookup other = entries.lookup other := by
  rw [Dict.lookup_concat entries key value other hkey, if_neg (by simpa using h)]

theorem lookup_concat_self {α : Type} (entries : List (String × α)) (key : String) (value : α)
    (hkey : key ∉ entries.map Prod.fst) :
    (entries ++ [(key, value)]).lookup key = some value := by
  rw [Dict.lookup_concat entries key value key hkey, if_pos (beq_self_eq_true key)]

section

variable (absent : List ℕ)

theorem noted_missing (hnew : path ∉ parts.missing.map Prod.fst) (other : String) :
    ((parts.noted path absent).missing.lookup other).getD []
      = if other = path then absent else (parts.missing.lookup other).getD [] := by
  unfold DocumentParts.noted
  by_cases hother : other = path
  · subst hother
    rw [if_pos rfl]
    split
    · next hnone =>
        rw [(Dict.lookup_eq_none parts.missing other).mpr hnew, hnone]
        rfl
    · show ((parts.missing ++ [(other, absent)]).lookup other).getD [] = absent
      rw [lookup_concat_self _ _ _ hnew]
      rfl
  · rw [if_neg hother]
    split
    · rfl
    · show ((parts.missing ++ [(path, absent)]).lookup other).getD [] = _
      rw [lookup_concat_ne _ _ _ _ hnew hother]

theorem noted_missingKeys (other : String)
    (h : other ∈ (parts.noted path absent).missing.map Prod.fst) :
    other ∈ parts.missing.map Prod.fst ∨ other = path := by
  unfold DocumentParts.noted at h
  split at h
  · exact Or.inl h
  · exact (mem_keys_concat _ _ _ _).mp h

theorem noted_rest :
    (parts.noted path absent).constants = parts.constants ∧
      (parts.noted path absent).columns = parts.columns ∧
      (parts.noted path absent).aliases = parts.aliases ∧
      (parts.noted path absent).seen = parts.seen := by
  unfold DocumentParts.noted
  split <;> exact ⟨rfl, rfl, rfl, rfl⟩

end

theorem addPath_cases :
    (IsConstant rows path ∧ addPath rows parts path
      = { parts.noted path (absentFrom (columnOf rows path)) with
          constants := parts.constants ++ [(path, firstOf rows path)] }) ∨
    (¬ IsConstant rows path ∧ (∃ entry ∈ parts.seen,
      Json.sameItems entry.1 (filled (columnOf rows path)) = true ∧ addPath rows parts path
        = { parts.noted path (absentFrom (columnOf rows path)) with
            aliases := parts.aliases ++ [(path, entry.2)] })) ∨
    (¬ IsConstant rows path ∧ addPath rows parts path
      = { parts.noted path (absentFrom (columnOf rows path)) with
          seen := parts.seen ++ [(filled (columnOf rows path), path)]
          columns := parts.columns ++ [(path, encodeColumn (filled (columnOf rows path)))] }) := by
  obtain ⟨hconstants, hcolumns, haliases, hseen⟩ :=
    noted_rest parts path (absentFrom (columnOf rows path))
  unfold addPath
  rw [← hconstants, ← hcolumns, ← haliases, ← hseen]
  by_cases hconstant : IsConstant rows path
  · exact Or.inl ⟨hconstant, if_pos hconstant⟩
  · right
    simp only [if_neg hconstant]
    split
    · next entry hfind =>
        have hsame := List.find?_some hfind
        exact Or.inl ⟨hconstant, entry, List.mem_of_find?_eq_some hfind, hsame, rfl⟩
    · exact Or.inr ⟨hconstant, rfl⟩

theorem addPath_holds (hnew : path ∉ done) (h : Holds rows done parts) :
    Holds rows (done ++ [path]) (addPath rows parts path) := by
  have hin : ∀ other ∈ done, other ∈ done ++ [path] := fun _ => List.mem_append_left _
  have hself : path ∈ done ++ [path] := List.mem_append_right _ (List.mem_singleton.mpr rfl)
  have hne : ∀ other ∈ done, other ≠ path := fun other hother hsame => hnew (hsame ▸ hother)
  have hsplit : ∀ other ∈ done ++ [path], other ∈ done ∨ other = path := fun other hother =>
    (List.mem_append.mp hother).imp id List.mem_singleton.mp
  have hconstantKey : path ∉ parts.constants.map Prod.fst := fun hmem => hnew (h.constantKeys _ hmem)
  have hcolumnKey : path ∉ parts.columns.map Prod.fst := fun hmem => hnew (h.columnKeys _ hmem)
  have haliasKey : path ∉ parts.aliases.map Prod.fst := fun hmem => hnew (h.aliasKeys _ hmem)
  have hmissingKey : path ∉ parts.missing.map Prod.fst := fun hmem => hnew (h.missingKeys _ hmem)
  have hmissing : ∀ other ∈ done ++ [path],
      ((parts.noted path (absentFrom (columnOf rows path))).missing.lookup other).getD []
        = absentFrom (columnOf rows other) := by
    intro other hother
    rw [noted_missing parts path _ hmissingKey]
    rcases hsplit other hother with hother | rfl
    · rw [if_neg (hne other hother)]
      exact h.missing other hother
    · rw [if_pos rfl]
  have hmissingKeys : ∀ other ∈ (parts.noted path (absentFrom (columnOf rows path))).missing.map Prod.fst,
      other ∈ done ++ [path] := by
    intro other hother
    rcases noted_missingKeys parts path _ other hother with hold | rfl
    · exact hin other (h.missingKeys other hold)
    · exact hself
  obtain ⟨hconstants, hcolumns, haliases, hseen⟩ :=
    noted_rest parts path (absentFrom (columnOf rows path))
  have hcolumnNe : ∀ target, (parts.columns.lookup target).isSome = true → target ≠ path := by
    intro target hsome
    obtain ⟨column, hcolumn⟩ := Option.isSome_iff_exists.mp hsome
    refine hne target (h.columnKeys target ?_)
    exact List.mem_map.mpr ⟨_, Dict.mem_of_lookup _ _ _ hcolumn, rfl⟩
  rcases addPath_cases rows parts path with ⟨hconstant, hadd⟩ |
    ⟨hvaried, entry, hentry, hsame, hadd⟩ | ⟨hvaried, hadd⟩
  · -- a constant
    rw [hadd]
    refine ⟨?_, ?_, ?_, ?_, hmissingKeys, ?_, hmissing, ?_, ?_, ?_⟩
    · intro other hother
      rcases (mem_keys_concat _ _ _ _).mp hother with hold | rfl
      · exact hin other (h.constantKeys other hold)
      · exact hself
    · intro other hother
      exact hin other (h.columnKeys other (hcolumns ▸ hother))
    · intro other hother
      unfold DocumentParts.isAlias at hother
      rw [haliases] at hother
      exact hin other (h.aliasKeys other hother)
    · exact haliases.symm ▸ h.aliasNodup
    · intro other hother
      rcases hsplit other hother with hold | rfl
      · exact (lookup_concat_ne _ _ _ _ hconstantKey (hne other hold)).trans (h.constants other hold)
      · rw [if_pos hconstant]
        exact lookup_concat_self _ _ _ hconstantKey
    · intro other hother hvaried
      rcases hsplit other hother with hold | rfl
      · show ∃ column, (DocumentParts.columns _).lookup (((DocumentParts.aliases _).lookup other).getD other)
          = _ ∧ _
        rw [hcolumns, haliases]
        exact h.stored other hold hvaried
      · exact absurd hconstant hvaried
    · intro entry hentry
      show ((DocumentParts.columns _).lookup entry.2).isSome = true ∧
        ¬ entry.2 ∈ (DocumentParts.aliases _).map Prod.fst
      rw [hcolumns, haliases]
      exact h.targets entry (haliases ▸ hentry)
    · intro entry hentry
      show (DocumentParts.columns _).lookup entry.2 = _ ∧
        ¬ entry.2 ∈ (DocumentParts.aliases _).map Prod.fst
      rw [hcolumns, haliases]
      exact h.seen entry (hseen ▸ hentry)
  · -- an alias of a column that was seen
    obtain ⟨hentryColumn, hentryAlias⟩ := h.seen entry hentry
    have hentryNe : entry.2 ≠ path := hcolumnNe entry.2 (by rw [hentryColumn]; rfl)
    have hnotAlias : ∀ target, (parts.columns.lookup target).isSome = true → ¬ parts.isAlias target →
        ¬ target ∈ (parts.aliases ++ [(path, entry.2)]).map Prod.fst := by
      intro target hsome hold hmem
      rcases (mem_keys_concat _ _ _ _).mp hmem with hmem | rfl
      · exact hold hmem
      · exact hcolumnNe target hsome rfl
    rw [hadd]
    refine ⟨?_, ?_, ?_, ?_, hmissingKeys, ?_, hmissing, ?_, ?_, ?_⟩
    · intro other hother
      exact hin other (h.constantKeys other (hconstants ▸ hother))
    · intro other hother
      exact hin other (h.columnKeys other (hcolumns ▸ hother))
    · intro other hother
      rcases (mem_keys_concat _ _ _ _).mp hother with hold | rfl
      · exact hin other (h.aliasKeys other hold)
      · exact hself
    · show ((parts.aliases ++ [(path, entry.2)]).map Prod.fst).Nodup
      rw [List.map_append, List.nodup_append]
      refine ⟨h.aliasNodup, List.nodup_singleton _, ?_⟩
      rintro other hother last hlast rfl
      obtain rfl : other = path := List.mem_singleton.mp hlast
      exact haliasKey hother
    · intro other hother
      show (DocumentParts.constants _).lookup other = _
      rw [hconstants]
      rcases hsplit other hother with hold | rfl
      · exact h.constants other hold
      · rw [if_neg hvaried, (Dict.lookup_eq_none _ _).mpr hconstantKey]
    · intro other hother hother'
      show ∃ column, (DocumentParts.columns _).lookup
        (((parts.aliases ++ [(path, entry.2)]).lookup other).getD other) = _ ∧ _
      rw [hcolumns]
      rcases hsplit other hother with hold | rfl
      · rw [lookup_concat_ne _ _ _ _ haliasKey (hne other hold)]
        exact h.stored other hold hother'
      · rw [lookup_concat_self _ _ _ haliasKey]
        exact ⟨entry.1, hentryColumn, hsame⟩
    · intro other hother
      show ((DocumentParts.columns _).lookup other.2).isSome = true ∧
        ¬ other.2 ∈ (parts.aliases ++ [(path, entry.2)]).map Prod.fst
      rw [hcolumns]
      rcases List.mem_append.mp hother with hold | hlast
      · obtain ⟨hsome, halias⟩ := h.targets other hold
        exact ⟨hsome, hnotAlias other.2 hsome halias⟩
      · obtain rfl := List.mem_singleton.mp hlast
        have hsome : (parts.columns.lookup entry.2).isSome = true := by rw [hentryColumn]; rfl
        exact ⟨hsome, hnotAlias entry.2 hsome hentryAlias⟩
    · intro other hother
      show (DocumentParts.columns _).lookup other.2 = _ ∧
        ¬ other.2 ∈ (parts.aliases ++ [(path, entry.2)]).map Prod.fst
      rw [hcolumns]
      obtain ⟨hcolumn, halias⟩ := h.seen other (hseen ▸ hother)
      exact ⟨hcolumn, hnotAlias other.2 (by rw [hcolumn]; rfl) halias⟩
  · -- a column of its own
    have hkept : ∀ target column, parts.columns.lookup target = some column →
        (parts.columns ++ [(path, encodeColumn (filled (columnOf rows path)))]).lookup target
          = some column := by
      intro target column hcolumn
      rw [lookup_concat_ne _ _ _ _ hcolumnKey (hcolumnNe target (by rw [hcolumn]; rfl))]
      exact hcolumn
    rw [hadd]
    refine ⟨?_, ?_, ?_, ?_, hmissingKeys, ?_, hmissing, ?_, ?_, ?_⟩
    · intro other hother
      exact hin other (h.constantKeys other (hconstants ▸ hother))
    · intro other hother
      rcases (mem_keys_concat _ _ _ _).mp hother with hold | rfl
      · exact hin other (h.columnKeys other hold)
      · exact hself
    · intro other hother
      unfold DocumentParts.isAlias at hother
      rw [haliases] at hother
      exact hin other (h.aliasKeys other hother)
    · exact haliases.symm ▸ h.aliasNodup
    · intro other hother
      show (DocumentParts.constants _).lookup other = _
      rw [hconstants]
      rcases hsplit other hother with hold | rfl
      · exact h.constants other hold
      · rw [if_neg hvaried, (Dict.lookup_eq_none _ _).mpr hconstantKey]
    · intro other hother hother'
      show ∃ column, (parts.columns ++ [(path, encodeColumn (filled (columnOf rows path)))]).lookup
        (((DocumentParts.aliases _).lookup other).getD other) = _ ∧ _
      rw [haliases]
      rcases hsplit other hother with hold | rfl
      · obtain ⟨column, hcolumn, hsame⟩ := h.stored other hold hother'
        exact ⟨column, hkept _ _ hcolumn, hsame⟩
      · rw [(Dict.lookup_eq_none _ _).mpr haliasKey]
        exact ⟨_, lookup_concat_self _ _ _ hcolumnKey, sameItems_refl rows other⟩
    · intro other hother
      show ((parts.columns ++ [(path, encodeColumn (filled (columnOf rows path)))]).lookup
        other.2).isSome = true ∧ ¬ other.2 ∈ (DocumentParts.aliases _).map Prod.fst
      rw [haliases]
      obtain ⟨hsome, halias⟩ := h.targets other (haliases ▸ hother)
      obtain ⟨column, hcolumn⟩ := Option.isSome_iff_exists.mp hsome
      exact ⟨by rw [hkept _ _ hcolumn]; rfl, halias⟩
    · intro other hother
      show (parts.columns ++ [(path, encodeColumn (filled (columnOf rows path)))]).lookup other.2 = _ ∧
        ¬ other.2 ∈ (DocumentParts.aliases _).map Prod.fst
      rw [haliases]
      rcases List.mem_append.mp hother with hold | hlast
      · obtain ⟨hcolumn, halias⟩ := h.seen other hold
        exact ⟨hkept _ _ hcolumn, halias⟩
      · obtain rfl := List.mem_singleton.mp hlast
        exact ⟨lookup_concat_self _ _ _ hcolumnKey, haliasKey⟩

theorem buildParts_holds (paths : List String) (hnodup : paths.Nodup) :
    Holds rows paths (paths.foldl (addPath rows) {}) := by
  induction paths using List.reverseRecOn with
  | nil => exact holds_empty rows
  | append_singleton paths path ih =>
      rw [List.nodup_append] at hnodup
      rw [List.foldl_append]
      refine addPath_holds rows paths _ path ?_ (ih hnodup.1)
      intro hmem
      exact hnodup.2.2 path hmem path (List.mem_singleton.mpr rfl) rfl

/-! ## Reading the columns -/

/-- The aliases in turn give each path its target's values. -/
theorem foldlM_aliases (aliases : List (String × String)) (values : List (String × List Json))
    (hnodup : (aliases.map Prod.fst).Nodup)
    (htargets : ∀ entry ∈ aliases, (values.lookup entry.2).isSome = true ∧
      entry.2 ∉ aliases.map Prod.fst) :
    ∃ all, aliases.foldlM (fun values entry =>
        match values.lookup entry.2 with
        | some column => Except.ok (Dict.set values entry.1 column)
        | none => .error DecodeError.keyError) values = .ok all ∧
      ∀ path, all.lookup path = values.lookup ((aliases.lookup path).getD path) := by
  induction aliases generalizing values with
  | nil => exact ⟨values, rfl, fun path => rfl⟩
  | cons entry rest ih =>
      obtain ⟨path, target⟩ := entry
      rw [List.map_cons, List.nodup_cons] at hnodup
      obtain ⟨hsome, hfree⟩ := htargets _ List.mem_cons_self
      obtain ⟨column, hcolumn⟩ := Option.isSome_iff_exists.mp hsome
      have hkept : ∀ other ∈ rest, (Dict.set values path column).lookup other.2
          = values.lookup other.2 := by
        intro other hother
        refine Dict.lookup_set_ne _ _ _ _ (fun hsame => ?_)
        exact (htargets other (List.mem_cons_of_mem _ hother)).2 (hsame ▸ List.mem_cons_self)
      obtain ⟨all, hall, hlookup⟩ := ih (Dict.set values path column) hnodup.2 (by
        intro other hother
        obtain ⟨hsome, hfree⟩ := htargets other (List.mem_cons_of_mem _ hother)
        rw [hkept other hother]
        exact ⟨hsome, fun hmem => hfree (List.mem_cons_of_mem _ hmem)⟩)
      refine ⟨all, ?_, fun other => ?_⟩
      · rw [List.foldlM_cons]
        show (match values.lookup target with
          | some column => Except.ok (Dict.set values path column)
          | none => .error DecodeError.keyError) >>= _ = _
        rw [hcolumn]
        exact hall
      · rw [hlookup, Dict.lookup_cons]
        by_cases hother : other == path
        · -- the alias itself: its target keeps its values
          rw [if_pos hother, eq_of_beq hother, (Dict.lookup_eq_none rest path).mpr hnodup.1]
          show (Dict.set values path column).lookup path = values.lookup target
          rw [Dict.lookup_set_self, hcolumn]
        · rw [if_neg hother]
          rcases hrest : rest.lookup other with _ | found
          · exact Dict.lookup_set_ne _ _ _ _ (by simpa using hother)
          · exact hkept _ (Dict.mem_of_lookup _ _ _ hrest)

theorem lookup_decoded (columns : List (String × Encoded)) (path : String) :
    (columns.map (fun entry => (entry.1, decodeColumn entry.2))).lookup path
      = (columns.lookup path).map decodeColumn := by
  induction columns with
  | nil => rfl
  | cons entry rest ih =>
      rw [List.map_cons, Dict.lookup_cons, Dict.lookup_cons, ih]
      split <;> rfl

theorem mem_absentFrom (column : List (Option Json)) (position : ℕ) :
    position ∈ absentFrom column ↔ column[position]? = some none := by
  unfold absentFrom
  rw [List.mem_filter, List.mem_range, decide_eq_true_eq]
  rcases hvalue : column[position]? with _ | value
  · rw [List.getElem?_eq_none_iff] at hvalue
    exact iff_of_false (fun h => absurd h.1 (not_lt.mpr hvalue)) (by simp)
  · obtain ⟨hlt, -⟩ := List.getElem?_eq_some_iff.mp hvalue
    rcases value with _ | value <;> simp [hlt]

/-- What a document gives back for a cell: the constant of its path, or the same value. -/
def GivesBack (rows : List MinuteRow) (path : String) (value original : Json) : Prop :=
  (IsConstant rows path → value = firstOf rows path) ∧
    (¬ IsConstant rows path → Json.same value original = true)

/-- **Every cell is given back**: a path is missing in the rows without it, and read in the others. -/
theorem storedValue_spec (observedAt : String)
    (metadata : List (String × Json)) :
    ∃ values, columnValues (buildDocument rows observedAt metadata) = .ok values ∧
      ∀ path ∈ pathOrder rows, ∀ position row, rows[position]? = some row →
        match cell row path with
        | none => position ∈ ((buildDocument rows observedAt metadata).missing.lookup path).getD []
        | some original =>
          position ∉ ((buildDocument rows observedAt metadata).missing.lookup path).getD [] ∧
          ∃ value, storedValue (buildDocument rows observedAt metadata) values position path = .ok value ∧
            GivesBack rows path value original := by
  have hparts := buildParts_holds rows (pathOrder rows) (Dict.nodup_eraseDups _)
  obtain ⟨values, hvalues, hlookup⟩ := foldlM_aliases (buildDocument rows observedAt metadata).aliases
    ((buildDocument rows observedAt metadata).columns.map
      (fun entry => (entry.1, decodeColumn entry.2))) hparts.aliasNodup (by
        intro entry hentry
        obtain ⟨hsome, hfree⟩ := hparts.targets entry hentry
        rw [lookup_decoded, Option.isSome_map]
        exact ⟨hsome, hfree⟩)
  refine ⟨values, hvalues, ?_⟩
  intro path hpath position row hrow
  have hmissing : ((buildDocument rows observedAt metadata).missing.lookup path).getD []
      = absentFrom (columnOf rows path) := hparts.missing path hpath
  have hcolumn : (columnOf rows path)[position]? = some (cell row path) := by
    unfold columnOf
    rw [List.getElem?_map, hrow]
    rfl
  have hfilled : (filled (columnOf rows path))[position]?
      = some ((cell row path).getD (.scalar .null)) := by
    unfold filled
    rw [List.getElem?_map, hcolumn]
    rfl
  rw [hmissing, mem_absentFrom, hcolumn]
  rcases hcell : cell row path with _ | original
  · rfl
  · rw [hcell] at hfilled
    refine ⟨by simp, ?_⟩
    have hconstant : (buildDocument rows observedAt metadata).constants.lookup path
        = if IsConstant rows path then some (firstOf rows path) else none :=
      hparts.constants path hpath
    by_cases hfolded : IsConstant rows path
    · rw [if_pos hfolded] at hconstant
      refine ⟨firstOf rows path, ?_, fun _ => rfl, fun h => absurd hfolded h⟩
      unfold storedValue
      rw [hconstant]
    · rw [if_neg hfolded] at hconstant
      obtain ⟨column, hresolve, hsame⟩ := hparts.stored path hpath hfolded
      have hread : values.lookup path = some column := by
        rw [hlookup, lookup_decoded]
        show (DocumentParts.resolve _ path).map decodeColumn = some column
        rw [hresolve, Option.map_some, decodeColumn_encodeColumn]
      have hrel := Json.eqItems_getElem? column _ hsame position
      rw [hfilled] at hrel
      rcases hvalue : column[position]? with _ | value
      · rw [hvalue] at hrel
        exact absurd hrel (by rintro ⟨⟩)
      · rw [hvalue] at hrel
        rcases hrel with hequal | -
        refine ⟨value, ?_, fun h => absurd h hfolded, fun _ => hequal⟩
        unfold storedValue
        rw [hconstant]
        simp only [hread, hvalue]

end TradingHarness
