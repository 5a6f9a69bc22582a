import TradingHarness.Library.Runs
import TradingHarness.Minutes.Columns

set_option autoImplicit false

/-! # Is the minute document lossless?

A row comes back as it was unless one of its keys looks like a sub-field of `raw`, its `raw` mapping is
empty or has the empty key, or a column that is constant to `==` mixes types. -/

namespace TradingHarness

/-- The path of a sub-field of `raw`. -/
def rawPath (sub : String) : String := "raw" ++ "." ++ sub

/-- The path is read as a sub-field of `raw`. -/
def IsSub (path : String) : Prop := ∃ sub, sub ≠ "" ∧ path = rawPath sub

/-! ## Putting values back -/

theorem rawPath_toList (sub : String) :
    (rawPath sub).toList = 'r' :: 'a' :: 'w' :: '.' :: sub.toList := by
  unfold rawPath
  rw [String.toList_append, String.toList_append]
  rfl

theorem rawPath_injective (sub other : String) (h : rawPath sub = rawPath other) : sub = other := by
  have hlist := congrArg String.toList h
  rw [rawPath_toList, rawPath_toList] at hlist
  exact String.toList_injective (by simpa using hlist)

theorem rawPath_ne_raw (sub : String) : rawPath sub ≠ "raw" := by
  intro h
  have hlist := congrArg String.toList h
  rw [rawPath_toList] at hlist
  exact absurd hlist (by simp)

theorem partitionDot_rawPath (sub : String) : partitionDot (rawPath sub) = ("raw", sub) := by
  unfold partitionDot
  rw [rawPath_toList]
  simp

variable (row : MinuteRow) (path : String) (value : Json)

theorem rawPath_of_partitionDot (sub : String) (h : partitionDot path = ("raw", sub))
    (hsub : sub ≠ "") : path = rawPath sub := by
  obtain ⟨hhead, hrest⟩ := Prod.mk.inj h
  have hbefore : path.toList.takeWhile (fun c => decide (c ≠ '.')) = ['r', 'a', 'w'] := by
    have hlist := congrArg String.toList hhead
    rw [String.toList_ofList] at hlist
    exact hlist
  have hafter : (path.toList.dropWhile (fun c => decide (c ≠ '.'))).drop 1 = sub.toList := by
    have hlist := congrArg String.toList hrest
    rw [String.toList_ofList] at hlist
    exact hlist
  have hjoin := List.takeWhile_append_dropWhile (p := fun c => decide (c ≠ '.')) (l := path.toList)
  rcases hdrop : path.toList.dropWhile (fun c => decide (c ≠ '.')) with _ | ⟨dot, rest⟩
  · rw [hdrop] at hafter
    exact absurd (String.toList_injective hafter.symm) hsub
  · have hdot : dot = '.' := by
      have hstop := List.head?_dropWhile_not (fun c => decide (c ≠ '.')) path.toList
      rw [hdrop] at hstop
      simpa using hstop
    rw [hdrop] at hafter hjoin
    apply String.toList_injective
    rw [rawPath_toList, ← hjoin, hbefore, hdot, ← hafter]
    rfl

theorem place_sub (row : List (String × Json)) (sub : String) (value : Json) (hsub : sub ≠ "") :
    place row (rawPath sub, value) = match row.lookup "raw" with
      | none => .ok (Dict.set row "raw" (.obj [(sub, value)]))
      | some (.obj fields) => .ok (Dict.set row "raw" (.obj (Dict.set fields sub value)))
      | some _ => .error .typeError := by
  unfold place
  rw [partitionDot_rawPath]
  show (if _ then _ else _) = _
  exact if_pos ⟨hsub, (mem_nestedFields "raw").mpr rfl⟩

theorem place_plain (row : List (String × Json)) (path : String) (value : Json)
    (hplain : ¬ IsSub path) : place row (path, value) = .ok (Dict.set row path value) := by
  unfold place
  show (if _ then _ else _) = _
  rw [if_neg]
  rintro ⟨hsub, hhead⟩
  refine hplain ⟨(partitionDot path).2, hsub, rawPath_of_partitionDot path _ ?_ hsub⟩
  exact Prod.ext ((mem_nestedFields _).mp hhead) rfl

/-- What the row holds once some entries are put back. -/
structure Placed (entries row : List (String × Json)) : Prop where
  nodup : (row.map Prod.fst).Nodup
  plain : ∀ key, ¬ IsSub key → key ≠ "raw" → row.lookup key = entries.lookup key
  sub : ∀ key, IsSub key → row.lookup key = none
  rawValue : (∀ key, IsSub key → entries.lookup key = none) →
    row.lookup "raw" = entries.lookup "raw"
  rawFields : entries.lookup "raw" = none → (∃ key, IsSub key ∧ entries.lookup key ≠ none) →
    ∃ fields, row.lookup "raw" = some (.obj fields) ∧ (fields.map Prod.fst).Nodup ∧
      ∀ sub, fields.lookup sub = if sub = "" then none else entries.lookup (rawPath sub)

theorem not_isSub_raw : ¬ IsSub "raw" := by
  rintro ⟨sub, -, h⟩
  exact rawPath_ne_raw sub h.symm

theorem Placed.plainStep {entries row : List (String × Json)} (h : Placed entries row) (path : String)
    (value : Json) (hnew : path ∉ entries.map Prod.fst) (hplain : ¬ IsSub path) :
    Placed (entries ++ [(path, value)]) (Dict.set row path value) where
  nodup := Dict.nodup_keys_set row path value h.nodup
  plain := by
    intro key hkey hraw
    rw [Dict.lookup_set, Dict.lookup_concat _ _ _ _ hnew, h.plain key hkey hraw]
  sub := by
    intro key hkey
    have hne : key ≠ path := fun hsame => hplain (hsame ▸ hkey)
    rw [Dict.lookup_set_ne _ _ _ _ hne]
    exact h.sub key hkey
  rawValue := by
    intro hnone
    rw [Dict.lookup_set, Dict.lookup_concat _ _ _ _ hnew]
    split
    · rfl
    · refine h.rawValue (fun key hkey => ?_)
      have hlast := hnone key hkey
      rw [Dict.lookup_concat _ _ _ _ hnew] at hlast
      split at hlast
      · exact absurd hlast (by simp)
      · exact hlast
  rawFields := by
    intro hnone hsome
    have hraw : "raw" ≠ path := by
      intro hsame
      rw [Dict.lookup_concat _ _ _ _ hnew, if_pos (by simpa using hsame)] at hnone
      exact absurd hnone (by simp)
    rw [lookup_concat_ne _ _ _ _ hnew hraw] at hnone
    rw [Dict.lookup_set_ne _ _ _ _ hraw]
    obtain ⟨key, hkey, hfound⟩ := hsome
    have hkept : ∀ other, IsSub other →
        (entries ++ [(path, value)]).lookup other = entries.lookup other := fun other hother =>
      lookup_concat_ne _ _ _ _ hnew (fun hsame => hplain (hsame ▸ hother))
    rw [hkept key hkey] at hfound
    obtain ⟨fields, hfields, hnodup, hlookup⟩ := h.rawFields hnone ⟨key, hkey, hfound⟩
    refine ⟨fields, hfields, hnodup, fun sub => ?_⟩
    rw [hlookup]
    split
    · rfl
    · next hsub => exact (hkept _ ⟨sub, hsub, rfl⟩).symm

theorem Placed.subStep {entries row : List (String × Json)} (h : Placed entries row) (sub : String)
    (value : Json) (hnew : rawPath sub ∉ entries.map Prod.fst) (hsub : sub ≠ "")
    (row' : List (String × Json)) (hplace : place row (rawPath sub, value) = .ok row') :
    Placed (entries ++ [(rawPath sub, value)]) row' := by
  have hself : IsSub (rawPath sub) := ⟨sub, hsub, rfl⟩
  rw [place_sub row sub value hsub] at hplace
  have hset : ∃ fields, row' = Dict.set row "raw" (.obj fields) ∧
      (entries.lookup "raw" = none → (fields.map Prod.fst).Nodup ∧
        ∀ other, fields.lookup other = if other = "" then none else
          (entries ++ [(rawPath sub, value)]).lookup (rawPath other)) := by
    have hlast : ∀ other, (entries ++ [(rawPath sub, value)]).lookup (rawPath other)
        = if other = sub then some value else entries.lookup (rawPath other) := by
      intro other
      rw [Dict.lookup_concat _ _ _ _ hnew]
      by_cases hother : other = sub
      · rw [if_pos hother, if_pos (by rw [hother]; exact beq_self_eq_true _)]
      · rw [if_neg hother, if_neg (by simpa using fun hsame => hother (rawPath_injective _ _ hsame))]
    split at hplace
    · next hraw =>
        refine ⟨_, (Except.ok.inj hplace).symm, fun hnone => ⟨List.nodup_singleton _, fun other => ?_⟩⟩
        have hempty : ∀ key, IsSub key → entries.lookup key = none := by
          intro key hkey
          by_contra hsome
          obtain ⟨fields, hfields, -⟩ := h.rawFields hnone ⟨key, hkey, hsome⟩
          rw [hraw] at hfields
          exact absurd hfields (by simp)
        rw [Dict.lookup_cons, List.lookup_nil, hlast]
        by_cases hother : other = sub
        · rw [if_pos (by simpa using hother), if_pos hother, hother, if_neg hsub]
        · rw [if_neg (by simpa using hother), if_neg hother]
          split
          · rfl
          · next hne => exact (hempty _ ⟨other, hne, rfl⟩).symm
    · next fields hraw =>
        refine ⟨_, (Except.ok.inj hplace).symm, fun hnone => ?_⟩
        have hsome : ∃ key, IsSub key ∧ entries.lookup key ≠ none := by
          by_contra hempty
          push Not at hempty
          rw [h.rawValue hempty, hnone] at hraw
          exact absurd hraw (by simp)
        obtain ⟨found, hfound, hnodup, hlookup⟩ := h.rawFields hnone hsome
        rw [hraw, Option.some.injEq, Json.obj.injEq] at hfound
        subst hfound
        refine ⟨Dict.nodup_keys_set _ _ _ hnodup, fun other => ?_⟩
        rw [Dict.lookup_set, hlast]
        by_cases hother : other = sub
        · rw [if_pos (by simpa using hother), if_pos hother, hother, if_neg hsub]
        · rw [if_neg (by simpa using hother), if_neg hother]
          exact hlookup other
    · exact absurd hplace (by simp)
  obtain ⟨fields, rfl, hfields⟩ := hset
  refine ⟨Dict.nodup_keys_set _ _ _ h.nodup, ?_, ?_, ?_, ?_⟩
  · intro key hkey hraw
    have hne : key ≠ rawPath sub := fun hsame => hkey (hsame ▸ hself)
    rw [Dict.lookup_set_ne _ _ _ _ hraw, lookup_concat_ne _ _ _ _ hnew hne]
    exact h.plain key hkey hraw
  · intro key hkey
    have hne : key ≠ "raw" := fun hsame => not_isSub_raw (hsame ▸ hkey)
    rw [Dict.lookup_set_ne _ _ _ _ hne]
    exact h.sub key hkey
  · intro hnone
    have hlast := hnone _ hself
    rw [lookup_concat_self _ _ _ hnew] at hlast
    exact absurd hlast (by simp)
  · intro hnone _
    rw [lookup_concat_ne _ _ _ _ hnew (rawPath_ne_raw sub).symm] at hnone
    obtain ⟨hnodup, hlookup⟩ := hfields hnone
    exact ⟨fields, Dict.lookup_set_self _ _ _, hnodup, hlookup⟩

theorem foldlM_concat {σ ι : Type} (step : σ → ι → Except DecodeError σ) (items : List ι) (item : ι)
    (start : σ) :
    (items ++ [item]).foldlM step start = items.foldlM step start >>= fun state => step state item := by
  rw [List.foldlM_append]
  refine congrArg _ (funext fun state => ?_)
  show step state item >>= pure = _
  exact bind_pure _

theorem placed_of_ok (entries row : List (String × Json)) (hnodup : (entries.map Prod.fst).Nodup)
    (h : entries.foldlM place [] = .ok row) : Placed entries row := by
  induction entries using List.reverseRecOn generalizing row with
  | nil =>
      obtain rfl := Except.ok.inj h
      exact ⟨List.nodup_nil, fun _ _ _ => rfl, fun _ _ => rfl, fun _ => rfl,
        fun _ hsome => absurd rfl hsome.choose_spec.2⟩
  | append_singleton entries entry ih =>
      obtain ⟨path, value⟩ := entry
      rw [List.map_append, List.nodup_append] at hnodup
      have hnew : path ∉ entries.map Prod.fst := fun hmem =>
        hnodup.2.2 path hmem path (List.mem_singleton.mpr rfl) rfl
      rw [foldlM_concat] at h
      rcases hbefore : entries.foldlM place [] with error | before
      · rw [hbefore] at h
        exact absurd h (by simp [bind, Except.bind])
      · rw [hbefore] at h
        have hplaced := ih before hnodup.1 hbefore
        by_cases hsub : IsSub path
        · obtain ⟨sub, hsub, rfl⟩ := hsub
          exact hplaced.subStep sub value hnew hsub row h
        · have hplace : place before (path, value) = .ok row := h
          rw [place_plain _ _ _ hsub] at hplace
          obtain rfl := Except.ok.inj hplace
          exact hplaced.plainStep path value hnew hsub

theorem place_total (entries : List (String × Json)) (hnodup : (entries.map Prod.fst).Nodup)
    (hraw : entries.lookup "raw" = none ∨ ∀ key, IsSub key → entries.lookup key = none) :
    ∃ row, entries.foldlM place [] = .ok row := by
  induction entries using List.reverseRecOn with
  | nil => exact ⟨[], rfl⟩
  | append_singleton entries entry ih =>
      obtain ⟨path, value⟩ := entry
      rw [List.map_append, List.nodup_append] at hnodup
      have hnew : path ∉ entries.map Prod.fst := fun hmem =>
        hnodup.2.2 path hmem path (List.mem_singleton.mpr rfl) rfl
      have hkept : ∀ key, (entries ++ [(path, value)]).lookup key = none → entries.lookup key = none := by
        intro key hkey
        rw [Dict.lookup_concat _ _ _ _ hnew] at hkey
        split at hkey
        · exact absurd hkey (by simp)
        · exact hkey
      obtain ⟨before, hbefore⟩ := ih hnodup.1
        (hraw.imp (hkept "raw") (fun h key hkey => hkept key (h key hkey)))
      rw [foldlM_concat, hbefore]
      show ∃ row, place before (path, value) = .ok row
      by_cases hsub : IsSub path
      · have hself := hsub
        obtain ⟨sub, hsub, rfl⟩ := hsub
        have hnone : entries.lookup "raw" = none := by
          rcases hraw with h | h
          · exact hkept "raw" h
          · have hlast := h _ hself
            rw [lookup_concat_self _ _ _ hnew] at hlast
            exact absurd hlast (by simp)
        have hplaced := placed_of_ok entries before hnodup.1 hbefore
        rw [place_sub before sub value hsub]
        by_cases hempty : ∀ key, IsSub key → entries.lookup key = none
        · rw [hplaced.rawValue hempty, hnone]
          exact ⟨_, rfl⟩
        · push Not at hempty
          obtain ⟨fields, hfields, -⟩ := hplaced.rawFields hnone hempty
          rw [hfields]
          exact ⟨_, rfl⟩
      · exact ⟨_, place_plain _ _ _ hsub⟩

/-! ## The cells of a row -/

theorem mem_flatten :
    (path, value) ∈ flatten row ↔
      (∃ fields sub, ("raw", Json.obj fields) ∈ row.1 ∧ (sub, value) ∈ fields ∧ path = rawPath sub) ∨
        ((path, value) ∈ row.1 ∧ (path = "raw" → ∀ fields, value ≠ .obj fields)) := by
  unfold flatten
  rw [List.mem_flatMap]
  constructor
  · rintro ⟨⟨key, found⟩, hmem, hpath⟩
    rcases (mem_pathsOf key found path value).mp hpath with ⟨rfl, fields, rfl, sub, hsub, rfl⟩ |
      ⟨hplain, rfl, rfl⟩
    · exact Or.inl ⟨fields, sub, hmem, hsub, rfl⟩
    · exact Or.inr ⟨hmem, hplain⟩
  · rintro (⟨fields, sub, hmem, hsub, rfl⟩ | ⟨hmem, hplain⟩)
    · exact ⟨_, hmem, (mem_pathsOf _ _ _ _).mpr (Or.inl ⟨rfl, fields, rfl, sub, hsub, rfl⟩)⟩
    · exact ⟨_, hmem, (mem_pathsOf _ _ _ _).mpr (Or.inr ⟨hplain, rfl, rfl⟩)⟩

theorem cell_eq_none (h : ∀ value, (path, value) ∉ flatten row) : cell row path = none := by
  unfold cell
  rw [Dict.lookup_eq_none]
  intro hmem
  obtain ⟨⟨key, value⟩, hentry, rfl⟩ := List.mem_map.mp hmem
  exact h value (List.mem_reverse.mp hentry)

theorem mem_of_cell (h : cell row path = some value) : (path, value) ∈ flatten row :=
  List.mem_reverse.mp (Dict.mem_of_lookup _ _ _ h)

theorem cell_eq_some (hmem : (path, value) ∈ flatten row) (hunique : ∀ other, (path, other) ∈ flatten row → other = value) :
    cell row path = some value := by
  rcases hcell : cell row path with _ | other
  · unfold cell at hcell
    rw [Dict.lookup_eq_none] at hcell
    exact absurd (List.mem_map.mpr ⟨_, List.mem_reverse.mpr hmem, rfl⟩) hcell
  · rw [hunique other (mem_of_cell row path other hcell)]

theorem MinuteRow.nodup : (row.1.map Prod.fst).Nodup := by
  have hrow := row.2
  rw [Json.distinct, Bool.and_eq_true] at hrow
  exact of_decide_eq_true hrow.1

theorem MinuteRow.lookup_of_mem (key : String) (value : Json)
    (h : (key, value) ∈ row.1) : row.1.lookup key = some value :=
  Dict.lookup_of_mem row.1 key value row.nodup h

theorem MinuteRow.fields_nodup (fields : List (String × Json))
    (h : row.1.lookup "raw" = some (.obj fields)) : (fields.map Prod.fst).Nodup := by
  have hrow := row.2
  rw [Json.distinct, Bool.and_eq_true, Json.distinctFields_iff] at hrow
  have hfields := hrow.2 _ (Dict.mem_of_lookup _ _ _ h)
  rw [Json.distinct, Bool.and_eq_true] at hfields
  exact of_decide_eq_true hfields.1

/-- No key of the row reads as a sub-field. -/
def NoSubKeys (row : MinuteRow) : Prop := ∀ field ∈ row.1, ¬ IsSub field.1

/-- The `raw` value of the row, if it is a mapping, has keys and no empty one. -/
def RawHasKeys (row : MinuteRow) : Prop :=
  ∀ fields, row.1.lookup "raw" = some (.obj fields) → fields ≠ [] ∧ "" ∉ fields.map Prod.fst

theorem cell_plain (hraw : RawHasKeys row) (key : String) (hkey : ¬ IsSub key)
    (hne : key ≠ "raw") : cell row key = row.1.lookup key := by
  have hmem : ∀ value, (key, value) ∈ flatten row → (key, value) ∈ row.1 := by
    intro value hvalue
    rcases (mem_flatten row key value).mp hvalue with ⟨fields, sub, hfields, hsub, rfl⟩ | ⟨hmem, -⟩
    · by_cases hempty : sub = ""
      · subst hempty
        exact absurd (List.mem_map.mpr ⟨_, hsub, rfl⟩) (hraw fields (row.lookup_of_mem _ _ hfields)).2
      · exact absurd ⟨sub, hempty, rfl⟩ hkey
    · exact hmem
  rcases hfound : row.1.lookup key with _ | value
  · refine cell_eq_none row key (fun value hvalue => ?_)
    rw [row.lookup_of_mem key value (hmem value hvalue)] at hfound
    exact absurd hfound (by simp)
  · refine cell_eq_some row key value ((mem_flatten row key value).mpr
      (Or.inr ⟨Dict.mem_of_lookup _ _ _ hfound, fun hsame => absurd hsame hne⟩)) ?_
    intro other hother
    rw [row.lookup_of_mem key other (hmem other hother)] at hfound
    exact Option.some.inj hfound

theorem cell_raw_of_obj (fields : List (String × Json))
    (h : row.1.lookup "raw" = some (.obj fields)) : cell row "raw" = none := by
  refine cell_eq_none row "raw" (fun value hvalue => ?_)
  rcases (mem_flatten row "raw" value).mp hvalue with ⟨_, sub, -, -, hraw⟩ | ⟨hmem, hplain⟩
  · exact rawPath_ne_raw sub hraw.symm
  · rw [row.lookup_of_mem "raw" value hmem, Option.some.injEq] at h
    exact hplain rfl fields h

theorem cell_raw_of_not_obj (h : ∀ fields, row.1.lookup "raw" ≠ some (.obj fields)) :
    cell row "raw" = row.1.lookup "raw" := by
  have hmem : ∀ value, (("raw", value) ∈ flatten row ↔ ("raw", value) ∈ row.1) := by
    intro value
    rw [mem_flatten]
    constructor
    · rintro (⟨_, sub, -, -, hraw⟩ | ⟨hmem, -⟩)
      · exact absurd hraw.symm (rawPath_ne_raw sub)
      · exact hmem
    · intro hmem
      refine Or.inr ⟨hmem, fun _ fields hvalue => ?_⟩
      subst hvalue
      exact h fields (row.lookup_of_mem _ _ hmem)
  rcases hfound : row.1.lookup "raw" with _ | value
  · refine cell_eq_none row "raw" (fun value hvalue => ?_)
    rw [row.lookup_of_mem "raw" value ((hmem value).mp hvalue)] at hfound
    exact absurd hfound (by simp)
  · refine cell_eq_some row "raw" value ((hmem value).mpr (Dict.mem_of_lookup _ _ _ hfound)) ?_
    intro other hother
    rw [row.lookup_of_mem "raw" other ((hmem other).mp hother)] at hfound
    exact Option.some.inj hfound

theorem cell_sub_of_obj (hkeys : NoSubKeys row) (fields : List (String × Json))
    (h : row.1.lookup "raw" = some (.obj fields)) (sub : String) (hsub : sub ≠ "") :
    cell row (rawPath sub) = fields.lookup sub := by
  have hmem : ∀ value, ((rawPath sub, value) ∈ flatten row ↔ (sub, value) ∈ fields) := by
    intro value
    rw [mem_flatten]
    constructor
    · rintro (⟨others, other, hothers, hother, hpath⟩ | ⟨hmem, -⟩)
      · rw [row.lookup_of_mem _ _ hothers, Option.some.injEq, Json.obj.injEq] at h
        rw [← h, rawPath_injective sub other hpath]
        exact hother
      · exact absurd ⟨sub, hsub, rfl⟩ (hkeys _ hmem)
    · intro hvalue
      exact Or.inl ⟨fields, sub, Dict.mem_of_lookup _ _ _ h, hvalue, rfl⟩
  rcases hfound : fields.lookup sub with _ | value
  · refine cell_eq_none row _ (fun value hvalue => ?_)
    rw [Dict.lookup_eq_none] at hfound
    exact hfound (List.mem_map.mpr ⟨_, (hmem value).mp hvalue, rfl⟩)
  · refine cell_eq_some row _ value ((hmem value).mpr (Dict.mem_of_lookup _ _ _ hfound)) ?_
    intro other hother
    rw [Dict.lookup_of_mem fields sub other (row.fields_nodup fields h) ((hmem other).mp hother)]
      at hfound
    exact Option.some.inj hfound

theorem cell_sub_of_not_obj (hkeys : NoSubKeys row)
    (h : ∀ fields, row.1.lookup "raw" ≠ some (.obj fields)) (key : String) (hkey : IsSub key) :
    cell row key = none := by
  refine cell_eq_none row key (fun value hvalue => ?_)
  rcases (mem_flatten row key value).mp hvalue with ⟨fields, _, hfields, -, -⟩ | ⟨hmem, -⟩
  · exact h fields (row.lookup_of_mem _ _ hfields)
  · exact hkeys _ hmem hkey

/-! ## One row -/

/-- The entries of the cells are put back as the row itself, when they are the same as the cells. -/
theorem row_put_back (hkeys : NoSubKeys row) (hraw : RawHasKeys row)
    (entries : List (String × Json)) (hnodup : (entries.map Prod.fst).Nodup)
    (hsame : ∀ path, Option.Rel (fun value original => Json.same value original = true)
      (entries.lookup path) (cell row path)) :
    ∃ decoded, entries.foldlM place [] = .ok decoded ∧
      Json.same (.obj decoded) (.obj row.1) = true := by
  have hnone : ∀ path, cell row path = none → entries.lookup path = none := by
    intro path hcell
    have hrel := hsame path
    rw [hcell] at hrel
    rcases hentry : entries.lookup path with _ | value
    · rfl
    · rw [hentry] at hrel
      exact absurd hrel (by rintro ⟨⟩)
  by_cases hobj : ∃ fields, row.1.lookup "raw" = some (.obj fields)
  · -- the sub-fields are collected into one mapping
    obtain ⟨fields, hfields⟩ := hobj
    have hrawNone := hnone "raw" (cell_raw_of_obj row fields hfields)
    obtain ⟨decoded, hdecoded⟩ := place_total entries hnodup (Or.inl hrawNone)
    have hplaced := placed_of_ok entries decoded hnodup hdecoded
    refine ⟨decoded, hdecoded, (Json.eqWith_obj_iff _ _ hplaced.nodup).mpr (fun key => ?_)⟩
    by_cases hkey : IsSub key
    · have habsent : row.1.lookup key = none := by
        rw [Dict.lookup_eq_none]
        intro hmem
        obtain ⟨field, hfield, rfl⟩ := List.mem_map.mp hmem
        exact hkeys field hfield hkey
      rw [hplaced.sub key hkey, habsent]
      exact Option.Rel.none
    · by_cases hkeyRaw : key = "raw"
      · subst hkeyRaw
        obtain ⟨hnonempty, hnoEmpty⟩ := hraw fields hfields
        obtain ⟨⟨sub, value⟩, hmem⟩ := List.exists_mem_of_ne_nil fields hnonempty
        have hsub : sub ≠ "" := by
          rintro rfl
          exact hnoEmpty (List.mem_map.mpr ⟨_, hmem, rfl⟩)
        have hsome : entries.lookup (rawPath sub) ≠ none := by
          intro hlookup
          have hrel := hsame (rawPath sub)
          rw [hlookup, cell_sub_of_obj row hkeys fields hfields sub hsub, Dict.lookup_of_mem fields sub
            value (row.fields_nodup fields hfields) hmem] at hrel
          exact absurd hrel (by rintro ⟨⟩)
        obtain ⟨others, hothers, hothersNodup, hlookup⟩ := hplaced.rawFields hrawNone
          ⟨_, ⟨sub, hsub, rfl⟩, hsome⟩
        rw [hothers, hfields]
        refine Option.Rel.some ((Json.eqWith_obj_iff _ _ hothersNodup).mpr (fun name => ?_))
        rw [hlookup]
        split
        · next hempty =>
            subst hempty
            rw [(Dict.lookup_eq_none fields "").mpr hnoEmpty]
            exact Option.Rel.none
        · next hname =>
            rw [← cell_sub_of_obj row hkeys fields hfields name hname]
            exact hsame (rawPath name)
      · rw [hplaced.plain key hkey hkeyRaw, ← cell_plain row hraw key hkey hkeyRaw]
        exact hsame key
  · -- no sub-fields at all
    push Not at hobj
    have hsubs : ∀ key, IsSub key → entries.lookup key = none := fun key hkey =>
      hnone key (cell_sub_of_not_obj row hkeys hobj key hkey)
    obtain ⟨decoded, hdecoded⟩ := place_total entries hnodup (Or.inr hsubs)
    have hplaced := placed_of_ok entries decoded hnodup hdecoded
    refine ⟨decoded, hdecoded, (Json.eqWith_obj_iff _ _ hplaced.nodup).mpr (fun key => ?_)⟩
    by_cases hkey : IsSub key
    · have habsent : row.1.lookup key = none := by
        rw [Dict.lookup_eq_none]
        intro hmem
        obtain ⟨field, hfield, rfl⟩ := List.mem_map.mp hmem
        exact hkeys field hfield hkey
      rw [hplaced.sub key hkey, habsent]
      exact Option.Rel.none
    · by_cases hkeyRaw : key = "raw"
      · subst hkeyRaw
        rw [hplaced.rawValue hsubs, ← cell_raw_of_not_obj row hobj]
        exact hsame "raw"
      · rw [hplaced.plain key hkey hkeyRaw, ← cell_plain row hraw key hkey hkeyRaw]
        exact hsame key

/-- A row that came back the same has plain keys, and its cells are the same as the entries. -/
theorem same_of_row_back (entries decoded : List (String × Json))
    (hnodup : (entries.map Prod.fst).Nodup)
    (hcells : ∀ path, entries.lookup path = none ↔ cell row path = none)
    (hdecoded : entries.foldlM place [] = .ok decoded)
    (hsame : Json.same (.obj decoded) (.obj row.1) = true) :
    NoSubKeys row ∧ RawHasKeys row ∧ ∀ path value original, entries.lookup path = some value →
      cell row path = some original → Json.same value original = true := by
  have hplaced := placed_of_ok entries decoded hnodup hdecoded
  have hrel := (Json.eqWith_obj_iff _ _ hplaced.nodup).mp hsame
  have hkeys : NoSubKeys row := by
    rintro ⟨key, value⟩ hmem hkey
    have hfound := hrel key
    rw [hplaced.sub key hkey, row.lookup_of_mem key value hmem] at hfound
    exact absurd hfound (by rintro ⟨⟩)
  have hmapping : ∀ fields, row.1.lookup "raw" = some (.obj fields) →
      ∃ others, decoded.lookup "raw" = some (.obj others) ∧
        (∀ sub, others.lookup sub = if sub = "" then none else entries.lookup (rawPath sub)) ∧
        (∃ key, IsSub key ∧ entries.lookup key ≠ none) ∧
        ∀ sub, Option.Rel (fun a b => Json.same a b = true) (others.lookup sub) (fields.lookup sub) := by
    intro fields hfields
    have hrawNone := (hcells "raw").mpr (cell_raw_of_obj row fields hfields)
    have hraw := hrel "raw"
    rw [hfields] at hraw
    have hsome : ∃ key, IsSub key ∧ entries.lookup key ≠ none := by
      by_contra hempty
      push Not at hempty
      rw [hplaced.rawValue hempty, hrawNone] at hraw
      exact absurd hraw (by rintro ⟨⟩)
    obtain ⟨others, hothers, hothersNodup, hlookup⟩ := hplaced.rawFields hrawNone hsome
    rw [hothers] at hraw
    rcases hraw with hequal | -
    exact ⟨others, hothers, hlookup, hsome, (Json.eqWith_obj_iff _ _ hothersNodup).mp hequal⟩
  have hraw : RawHasKeys row := by
    intro fields hfields
    obtain ⟨others, -, hlookup, ⟨key, ⟨sub, hsub, rfl⟩, hkey⟩, hfieldsRel⟩ := hmapping fields hfields
    refine ⟨?_, ?_⟩
    · rintro rfl
      refine hkey ((hcells _).mpr ?_)
      exact cell_sub_of_obj row hkeys [] hfields sub hsub
    · intro hmem
      have hempty := hfieldsRel ""
      rw [hlookup, if_pos rfl] at hempty
      rcases hfound : fields.lookup "" with _ | value
      · exact absurd hmem ((Dict.lookup_eq_none fields "").mp hfound)
      · rw [hfound] at hempty
        exact absurd hempty (by rintro ⟨⟩)
  refine ⟨hkeys, hraw, ?_⟩
  intro path value original hvalue hcell
  have hrelSame : ∀ a b : Option Json, a = some value → b = some original →
      Option.Rel (fun a b => Json.same a b = true) a b → Json.same value original = true := by
    rintro _ _ rfl rfl (h | -)
    exact h
  by_cases hpath : IsSub path
  · obtain ⟨sub, hsub, rfl⟩ := hpath
    by_cases hobj : ∃ fields, row.1.lookup "raw" = some (.obj fields)
    · obtain ⟨fields, hfields⟩ := hobj
      obtain ⟨others, -, hlookup, -, hfieldsRel⟩ := hmapping fields hfields
      refine hrelSame _ _ ?_ ?_ (hfieldsRel sub)
      · rw [hlookup, if_neg hsub]
        exact hvalue
      · rw [← cell_sub_of_obj row hkeys fields hfields sub hsub]
        exact hcell
    · push Not at hobj
      rw [cell_sub_of_not_obj row hkeys hobj _ ⟨sub, hsub, rfl⟩] at hcell
      exact absurd hcell (by simp)
  · by_cases hpathRaw : path = "raw"
    · subst hpathRaw
      have hobj : ∀ fields, row.1.lookup "raw" ≠ some (.obj fields) := by
        intro fields hfields
        rw [cell_raw_of_obj row fields hfields] at hcell
        exact absurd hcell (by simp)
      refine hrelSame _ _ ?_ ?_ (hrel "raw")
      · rw [hplaced.rawValue (fun key hkey => (hcells key).mpr
          (cell_sub_of_not_obj row hkeys hobj key hkey))]
        exact hvalue
      · rw [← cell_raw_of_not_obj row hobj]
        exact hcell
    · refine hrelSame _ _ ?_ ?_ (hrel path)
      · rw [hplaced.plain path hpath hpathRaw]
        exact hvalue
      · rw [← cell_plain row hraw path hpath hpathRaw]
        exact hcell

/-! ## All rows -/

/-- The document of the rows gives the rows back. -/
def ReadsBack (rows : List MinuteRow) (observedAt : String) (metadata : List (String × Json)) : Prop :=
  ∃ decoded, rowsOf (buildDocument rows observedAt metadata) none = .ok decoded ∧
    List.Forall₂ (fun (fields : List (String × Json)) (row : MinuteRow) =>
      Json.same (.obj fields) (.obj row.1) = true) decoded rows

/-- A column that is constant to `==` is constant. -/
def ConstantsSame (rows : List MinuteRow) : Prop :=
  ∀ path, IsConstant rows path → ∀ row ∈ rows, ∀ value, cell row path = some value →
    Json.same (firstOf rows path) value = true

section

variable (rows : List MinuteRow)

theorem cell_mem_pathOrder (row : MinuteRow) (hrow : row ∈ rows)
    (path : String) (value : Json) (h : cell row path = some value) : path ∈ pathOrder rows := by
  unfold pathOrder
  rw [List.mem_eraseDups, List.mem_map]
  exact ⟨_, List.mem_flatMap.mpr ⟨row, hrow, mem_of_cell row path value h⟩, rfl⟩

theorem rowAt_entries (document : MinuteDocument)
    (values : List (String × List Json)) (position : ℕ) (row : MinuteRow) (paths : List String)
    (hnodup : paths.Nodup)
    (hread : ∀ path ∈ paths, match cell row path with
      | none => position ∈ (document.missing.lookup path).getD []
      | some original => position ∉ (document.missing.lookup path).getD [] ∧
        ∃ value, storedValue document values position path = .ok value ∧
          GivesBack rows path value original) :
    ∃ entries : List (String × Json), (∀ start, paths.foldlM (fun row path =>
        if position ∈ (document.missing.lookup path).getD [] then .ok row
        else do
          let value ← storedValue document values position path
          place row (path, value)) start = entries.foldlM place start) ∧
      (entries.map Prod.fst).Sublist paths ∧
      ∀ path ∈ paths, Option.Rel (GivesBack rows path) (entries.lookup path) (cell row path) := by
  induction paths with
  | nil => exact ⟨[], fun _ => rfl, List.nil_sublist _, fun path h => absurd h List.not_mem_nil⟩
  | cons path rest ih =>
      rw [List.nodup_cons] at hnodup
      obtain ⟨entries, hfold, hsub, hrel⟩ := ih hnodup.2 (fun other hother =>
        hread other (List.mem_cons_of_mem _ hother))
      have hnew : path ∉ entries.map Prod.fst := fun hmem => hnodup.1 (hsub.subset hmem)
      have hpath := hread path List.mem_cons_self
      rcases hcell : cell row path with _ | original
      · rw [hcell] at hpath
        refine ⟨entries, fun start => ?_, hsub.cons _, ?_⟩
        · rw [List.foldlM_cons, if_pos hpath]
          exact hfold start
        · intro other hother
          rcases List.mem_cons.mp hother with rfl | hother
          · rw [(Dict.lookup_eq_none entries other).mpr hnew, hcell]
            exact Option.Rel.none
          · exact hrel other hother
      · rw [hcell] at hpath
        obtain ⟨hpresent, value, hvalue, hgives⟩ := hpath
        refine ⟨(path, value) :: entries, fun start => ?_, hsub.cons_cons _, ?_⟩
        · rw [List.foldlM_cons, List.foldlM_cons, if_neg hpresent, hvalue]
          show place start (path, value) >>= _ = _
          exact congrArg _ (funext hfold)
        · intro other hother
          rw [Dict.lookup_cons]
          rcases List.mem_cons.mp hother with rfl | hother
          · rw [if_pos (beq_self_eq_true other), hcell]
            exact Option.Rel.some hgives
          · have hne : other ≠ path := fun hsame => hnodup.1 (hsame ▸ hother)
            rw [if_neg (by simpa using hne)]
            exact hrel other hother

theorem row_entries (observedAt : String) (metadata : List (String × Json))
    (values : List (String × List Json)) (position : ℕ) (row : MinuteRow)
    (hrow : rows[position]? = some row)
    (hread : ∀ path ∈ pathOrder rows, match cell row path with
      | none => position ∈ ((buildDocument rows observedAt metadata).missing.lookup path).getD []
      | some original =>
        position ∉ ((buildDocument rows observedAt metadata).missing.lookup path).getD [] ∧
        ∃ value, storedValue (buildDocument rows observedAt metadata) values position path = .ok value ∧
          GivesBack rows path value original) :
    ∃ entries : List (String × Json),
      rowAt (buildDocument rows observedAt metadata) values position = entries.foldlM place [] ∧
      (entries.map Prod.fst).Nodup ∧
      ∀ path, Option.Rel (GivesBack rows path) (entries.lookup path) (cell row path) := by
  obtain ⟨entries, hfold, hsub, hrel⟩ := rowAt_entries rows (buildDocument rows observedAt metadata)
    values position row (pathOrder rows) (Dict.nodup_eraseDups _) hread
  refine ⟨entries, hfold [], hsub.nodup (Dict.nodup_eraseDups _), fun path => ?_⟩
  by_cases hpath : path ∈ pathOrder rows
  · exact hrel path hpath
  · rw [(Dict.lookup_eq_none entries path).mpr (fun hmem => hpath (hsub.subset hmem))]
    rcases hcell : cell row path with _ | value
    · exact Option.Rel.none
    · exact absurd (cell_mem_pathOrder rows row (List.mem_of_getElem? hrow) path value hcell) hpath

/-- **The minute document is lossless** exactly when no key of a row reads as a sub-field of `raw`, no
    `raw` mapping is empty or has the empty key, and every column that is constant to `==` is constant
    with its types. -/
theorem reads_back_iff (observedAt : String)
    (metadata : List (String × Json)) :
    ReadsBack rows observedAt metadata ↔
      (∀ row ∈ rows, NoSubKeys row ∧ RawHasKeys row) ∧ ConstantsSame rows := by
  obtain ⟨values, hvalues, hread⟩ := storedValue_spec rows observedAt metadata
  have hrows : ∀ decoded, rowsOf (buildDocument rows observedAt metadata) none = .ok decoded ↔
      List.Forall₂ (fun position fields =>
        rowAt (buildDocument rows observedAt metadata) values position = .ok fields)
        (List.range rows.length) decoded := by
    intro decoded
    rw [← Runs.mapM_ok_iff]
    unfold rowsOf
    rw [hvalues]
    exact Iff.rfl
  have hentries := fun position row (hrow : rows[position]? = some row) =>
    row_entries rows observedAt metadata values position row hrow
      (fun path hpath => hread path hpath position row hrow)
  constructor
  · rintro ⟨decoded, hdecoded, hsame⟩
    have hpositions := List.forall₂_iff_get.mp ((hrows decoded).mp hdecoded)
    obtain ⟨hlength, hpairs⟩ := List.forall₂_iff_get.mp hsame
    have hback : ∀ row ∈ rows, NoSubKeys row ∧ RawHasKeys row ∧
        ∀ path, IsConstant rows path → ∀ value, cell row path = some value →
          Json.same (firstOf rows path) value = true := by
      intro row hmem
      obtain ⟨position, hlt, hget⟩ := List.getElem_of_mem hmem
      have hrow : rows[position]? = some row := by rw [List.getElem?_eq_getElem hlt, hget]
      obtain ⟨entries, hfold, hnodup, hrel⟩ := hentries position row hrow
      have hlt' : position < decoded.length := hlength ▸ hlt
      have hread := hpositions.2 position (by rw [List.length_range]; exact hlt) hlt'
      have hpair := hpairs position hlt' hlt
      simp only [List.get_eq_getElem, List.getElem_range] at hread hpair
      rw [hfold] at hread
      rw [hget] at hpair
      obtain ⟨hkeys, hraw, hcells⟩ := same_of_row_back row entries _ hnodup (fun path => by
        have hpath := hrel path
        rcases hentry : entries.lookup path with _ | value
        · rcases hcell : cell row path with _ | original
          · simp
          · rw [hentry, hcell] at hpath
            exact absurd hpath (by rintro ⟨⟩)
        · rcases hcell : cell row path with _ | original
          · rw [hentry, hcell] at hpath
            exact absurd hpath (by rintro ⟨⟩)
          · simp) hread hpair
      refine ⟨hkeys, hraw, ?_⟩
      intro path hconstant value hcell
      have hpath := hrel path
      rcases hentry : entries.lookup path with _ | entry
      · rw [hentry, hcell] at hpath
        exact absurd hpath (by rintro ⟨⟩)
      · rw [hentry, hcell] at hpath
        rcases hpath with hgives | -
        rw [← hgives.1 hconstant]
        exact hcells path entry value hentry hcell
    exact ⟨fun row hmem => ⟨(hback row hmem).1, (hback row hmem).2.1⟩,
      fun path hconstant row hmem => (hback row hmem).2.2 path hconstant⟩
  · rintro ⟨hplain, hconstants⟩
    have hback : ∀ position row, rows[position]? = some row → ∃ fields,
        rowAt (buildDocument rows observedAt metadata) values position = .ok fields ∧
          Json.same (.obj fields) (.obj row.1) = true := by
      intro position row hrow
      have hmem := List.mem_of_getElem? hrow
      obtain ⟨entries, hfold, hnodup, hrel⟩ := hentries position row hrow
      rw [hfold]
      refine row_put_back row (hplain row hmem).1 (hplain row hmem).2 entries hnodup (fun path => ?_)
      have hpath := hrel path
      rcases hcell : cell row path with _ | original
      · rw [hcell] at hpath
        rcases hentry : entries.lookup path with _ | value
        · exact Option.Rel.none
        · rw [hentry] at hpath
          exact absurd hpath (by rintro ⟨⟩)
      · rw [hcell] at hpath
        rcases hentry : entries.lookup path with _ | value
        · rw [hentry] at hpath
          exact absurd hpath (by rintro ⟨⟩)
        · rw [hentry] at hpath
          rcases hpath with hgives | -
          refine Option.Rel.some ?_
          by_cases hconstant : IsConstant rows path
          · rw [hgives.1 hconstant]
            exact hconstants path hconstant row hmem original hcell
          · exact hgives.2 hconstant
    choose fields hfields hsame using fun (position : ℕ) (hlt : position < rows.length) =>
      hback position rows[position] (List.getElem?_eq_getElem hlt)
    refine ⟨List.ofFn (fun position : Fin rows.length => fields position.1 position.2), ?_, ?_⟩
    · rw [hrows, List.forall₂_iff_get]
      refine ⟨by rw [List.length_range, List.length_ofFn], fun position hlt _ => ?_⟩
      rw [List.length_range] at hlt
      simp only [List.get_eq_getElem, List.getElem_range, List.getElem_ofFn]
      exact hfields position hlt
    · rw [List.forall₂_iff_get]
      refine ⟨List.length_ofFn, fun position _ hlt => ?_⟩
      simp only [List.get_eq_getElem, List.getElem_ofFn]
      exact hsame position hlt

end

/-- Two rows of one field, the integer one in the first and the float one in the second. -/
def oneAndOnePointZero : List MinuteRow :=
  [⟨[("volume", .scalar (.int 1))], by decide⟩, ⟨[("volume", .scalar (.float 1))], by decide⟩]

theorem oneAndOnePointZero_not_read_back :
    ¬ ReadsBack oneAndOnePointZero "2026-10-09T09:31:00+08:00" [] := by
  rintro ⟨decoded, hdecoded, hsame⟩
  have hrows : rowsOf (buildDocument oneAndOnePointZero "2026-10-09T09:31:00+08:00" []) none
      = .ok [[("volume", .scalar (.int 1))], [("volume", .scalar (.int 1))]] := by rfl
  rw [hrows] at hdecoded
  obtain rfl := Except.ok.inj hdecoded
  obtain ⟨-, hlast⟩ := List.forall₂_cons.mp hsame
  exact absurd (List.forall₂_cons.mp hlast).1 (by decide)

end TradingHarness
