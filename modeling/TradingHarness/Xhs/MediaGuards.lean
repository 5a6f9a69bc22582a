import TradingHarness.Library.Runs
import TradingHarness.Xhs.Operations

set_option autoImplicit false

/-! # What reaches a client

The paths that a creator method receives lie under the media root, unless its first argument comes by keyword under
another name than `path`. No method that changes an account is called without `confirm`. -/

namespace TradingHarness

/-! ## Received paths -/

/-- The path, where the file system resolves it, lies under the media root. -/
def UnderRoot (files : MediaFiles) (text : String) : Prop :=
  ∃ path, files.resolve text = some path ∧ files.root <+: path

def ownText : Json → List String
  | .scalar (.str text) => [text]
  | _ => []

/-- The texts of a value and of the items of a list. -/
def itemTexts : Json → List String
  | .arr items => items.flatMap ownText
  | value => ownText value

variable (first : String → String) (method : String) (args : List Argument) (kwargs : List (String × Json))

/-- The texts that a creator method takes for paths in its first argument. -/
def mediaStrings (value : Json) : List String :=
  if fileMethods.contains method then ownText value
  else
    match value with
    | .obj note =>
      ((note.lookup "images").elim [] itemTexts) ++ ((note.lookup "video").elim [] ownText)
    | _ => []

mutual

/-- The texts under a field named `path`, at any depth. -/
def pathStrings : Json → List String
  | .scalar _ => []
  | .arr items => itemPaths items
  | .obj fields => fieldPaths fields
termination_by structural value => value

def itemPaths : List Json → List String
  | [] => []
  | item :: rest => pathStrings item ++ itemPaths rest
termination_by structural items => items

def fieldPaths : List (String × Json) → List String
  | [] => []
  | field :: rest => ownPaths field ++ fieldPaths rest
termination_by structural fields => fields

def ownPaths : String × Json → List String
  | (key, value) => (if key == "path" then ownText value else []) ++ pathStrings value
termination_by structural field => field

end

def argumentPaths : Argument → List String
  | .value json => pathStrings json
  | .bytes _ => []

/-- The first parameter of a method once the arguments are bound. `first` is its name; given twice, the call raises. -/
def boundFirst :
    Option Argument :=
  match args, kwargs.lookup (first method) with
  | argument :: _, none => some argument
  | [], some value => some (.value value)
  | _, _ => none

def firstPaths : Option Argument → List String
  | some (.value json) => mediaStrings method json
  | _ => []

/-- The texts that a creator method receives as file paths. -/
def receivedPaths :
    List String :=
  firstPaths method (boundFirst first method args kwargs) ++ args.flatMap argumentPaths ++ fieldPaths kwargs

def creatorMethods : List String := fileMethods ++ ["post_note"]

/-- The request carries `confirm`. -/
def Confirmed : Prop := truthyJson (popped kwargs "confirm" (.scalar (.bool false))) = true

/-- A call gives creator methods only paths under the root, and changes an account only where that is confirmed. -/
def Guarded (files : MediaFiles) (first : String → String) (kwargs : List (String × Json)) : Effect → Prop
  | .call namespace' method args passed =>
    (namespace' = "creator" → method ∈ creatorMethods →
      ∀ text ∈ receivedPaths first method args passed, UnderRoot files text) ∧
    ((namespace', method) ∈ mutating → Confirmed kwargs)
  | _ => True

/-! ## Validated values -/

variable {files : MediaFiles}

theorem safeMediaPath_ok {value : Json} {text : String} (h : safeMediaPath files value = .ok text) :
    UnderRoot files text := by
  unfold safeMediaPath at h
  split at h
  next value =>
    split at h
    next => exact absurd h (by simp)
    next =>
      split at h
      next => exact absurd h (by simp)
      next path hpath =>
        split at h
        next => exact absurd h (by simp)
        next hroot =>
          split at h
          next => exact absurd h (by simp)
          next =>
            obtain rfl := Except.ok.inj h
            refine ⟨path, files.resolved value path hpath, ?_⟩
            have hunder : files.root.isPrefixOf path = true := by simpa using hroot
            exact List.isPrefixOf_iff_prefix.mp hunder
  next => exact absurd h (by simp)

theorem mem_fieldPaths {fields : List (String × Json)} {text : String} :
    text ∈ fieldPaths fields ↔ ∃ field ∈ fields, text ∈ ownPaths field := by
  induction fields with
  | nil => simp [fieldPaths]
  | cons field rest ih =>
      rw [fieldPaths, List.mem_append, ih]
      simp

theorem mem_itemPaths {items : List Json} {text : String} :
    text ∈ itemPaths items ↔ ∃ item ∈ items, text ∈ pathStrings item := by
  induction items with
  | nil => simp [itemPaths]
  | cons item rest ih =>
      rw [itemPaths, List.mem_append, ih]
      simp

theorem validateItems_cons {item : Json} {rest output : List Json}
    (h : validateItems files (item :: rest) = .ok output) :
    ∃ first others, validateMedia files item = .ok first ∧ validateItems files rest = .ok others ∧
      output = first :: others := by
  rw [validateItems] at h
  split at h
  next first others hfirst hothers => exact ⟨first, others, hfirst, hothers, (Except.ok.inj h).symm⟩
  next => exact absurd h (by simp)
  next => exact absurd h (by simp)

variable {output : List (String × Json)}

theorem validateFields_cons {field : String × Json} {rest : List (String × Json)}
    (h : validateFields files (field :: rest) = .ok output) :
    ∃ first others, validateField files field = .ok first ∧ validateFields files rest = .ok others ∧
      output = first :: others := by
  rw [validateFields] at h
  split at h
  next first others hfirst hothers => exact ⟨first, others, hfirst, hothers, (Except.ok.inj h).symm⟩
  next => exact absurd h (by simp)
  next => exact absurd h (by simp)

theorem validateField_ok {field output : String × Json} (h : validateField files field = .ok output) :
    output.1 = field.1 ∧
      ((field.1 = "path" ∧ ∃ text, output.2 = .scalar (.str text) ∧ UnderRoot files text) ∨
        (field.1 ≠ "path" ∧ validateMedia files field.2 = .ok output.2)) := by
  obtain ⟨key, value⟩ := field
  rw [validateField] at h
  split at h
  next hkey =>
    split at h
    next text htext =>
      obtain rfl := Except.ok.inj h
      exact ⟨rfl, Or.inl ⟨eq_of_beq hkey, text, rfl, safeMediaPath_ok htext⟩⟩
    next => exact absurd h (by simp)
  next hkey =>
    split at h
    next validated hvalidated =>
      obtain rfl := Except.ok.inj h
      exact ⟨rfl, Or.inr ⟨by simpa using hkey, hvalidated⟩⟩
    next => exact absurd h (by simp)

mutual

theorem pathStrings_validate : ∀ (value output : Json), validateMedia files value = .ok output →
    ∀ text ∈ pathStrings output, UnderRoot files text
  | .scalar value, output, h, text, htext => by
    rw [validateMedia] at h
    obtain rfl := Except.ok.inj h
    rw [pathStrings] at htext
    exact absurd htext List.not_mem_nil
  | .arr items, output, h, text, htext => by
    rw [validateMedia] at h
    split at h
    next validated hvalidated =>
      obtain rfl := Except.ok.inj h
      rw [pathStrings] at htext
      exact itemPaths_validate items validated hvalidated text htext
    next => exact absurd h (by simp)
  | .obj fields, output, h, text, htext => by
    rw [validateMedia] at h
    split at h
    next validated hvalidated =>
      obtain rfl := Except.ok.inj h
      rw [pathStrings] at htext
      exact fieldPaths_validate fields validated hvalidated text htext
    next => exact absurd h (by simp)
termination_by structural value => value

theorem itemPaths_validate : ∀ items output : List Json, validateItems files items = .ok output →
    ∀ text ∈ itemPaths output, UnderRoot files text
  | [], output, h, text, htext => by
    rw [validateItems] at h
    obtain rfl := Except.ok.inj h
    exact absurd htext List.not_mem_nil
  | item :: rest, output, h, text, htext => by
    obtain ⟨first, others, hfirst, hothers, rfl⟩ := validateItems_cons h
    rw [itemPaths, List.mem_append] at htext
    rcases htext with htext | htext
    · exact pathStrings_validate item first hfirst text htext
    · exact itemPaths_validate rest others hothers text htext
termination_by structural items => items

theorem fieldPaths_validate : ∀ fields output : List (String × Json), validateFields files fields = .ok output →
    ∀ text ∈ fieldPaths output, UnderRoot files text
  | [], output, h, text, htext => by
    rw [validateFields] at h
    obtain rfl := Except.ok.inj h
    exact absurd htext List.not_mem_nil
  | field :: rest, output, h, text, htext => by
    obtain ⟨first, others, hfirst, hothers, rfl⟩ := validateFields_cons h
    rw [fieldPaths, List.mem_append] at htext
    rcases htext with htext | htext
    · exact ownPaths_validate field first hfirst text htext
    · exact fieldPaths_validate rest others hothers text htext
termination_by structural fields => fields

theorem ownPaths_validate : ∀ field output : String × Json, validateField files field = .ok output →
    ∀ text ∈ ownPaths output, UnderRoot files text
  | (key, value), (name, validated), h, text, htext => by
    obtain ⟨rfl, hfield⟩ := validateField_ok h
    rw [ownPaths, List.mem_append] at htext
    rcases hfield with ⟨hkey, path, hpath, hunder⟩ | ⟨hkey, hvalidated⟩
    · dsimp only at hpath
      rw [hpath, pathStrings] at htext
      rcases htext with htext | htext
      · split at htext
        next =>
          rw [List.mem_singleton.mp htext]
          exact hunder
        next => exact absurd htext List.not_mem_nil
      · exact absurd htext List.not_mem_nil
    · rw [if_neg (by simpa using hkey)] at htext
      rcases htext with htext | htext
      · exact absurd htext List.not_mem_nil
      · exact pathStrings_validate value validated hvalidated text htext
termination_by structural field => field

end

theorem lookup_validateFields {fields : List (String × Json)} (h : validateFields files fields = .ok output)
    (key : String) : (fields.lookup key = none ∧ output.lookup key = none) ∨ ∃ value validated,
      fields.lookup key = some value ∧ output.lookup key = some validated ∧
        validateField files (key, value) = .ok (key, validated) := by
  induction fields generalizing output with
  | nil =>
      rw [validateFields] at h
      obtain rfl := Except.ok.inj h
      exact Or.inl ⟨rfl, rfl⟩
  | cons field rest ih =>
      obtain ⟨first, others, hfirst, hothers, rfl⟩ := validateFields_cons h
      obtain ⟨name, value⟩ := field
      obtain ⟨name', validated⟩ := first
      obtain rfl : name' = name := (validateField_ok hfirst).1
      rw [Dict.lookup_cons, Dict.lookup_cons]
      by_cases hkey : key = name'
      · rw [if_pos (beq_iff_eq.mpr hkey), if_pos (beq_iff_eq.mpr hkey), hkey]
        exact Or.inr ⟨value, validated, rfl, rfl, hfirst⟩
      · rw [if_neg (by simpa using hkey), if_neg (by simpa using hkey)]
        exact ih hothers

theorem lookup_validated {fields : List (String × Json)} (h : validateFields files fields = .ok output)
    {key : String} (hkey : key ≠ "path") : (fields.lookup key = none ∧ output.lookup key = none) ∨
      ∃ value validated, fields.lookup key = some value ∧ output.lookup key = some validated ∧
        validateMedia files value = .ok validated := by
  rcases lookup_validateFields h key with hnone | ⟨value, validated, hvalue, hvalidated, hfield⟩
  · exact Or.inl hnone
  · rcases (validateField_ok hfield).2 with ⟨hpath, -⟩ | ⟨-, hmedia⟩
    · exact absurd hpath hkey
    · exact Or.inr ⟨value, validated, hvalue, hvalidated, hmedia⟩

theorem ownText_validate {value output : Json} (h : validateMedia files value = .ok output) :
    ownText output = ownText value := by
  rcases value with value | items | fields
  · rw [validateMedia] at h
    rw [Except.ok.inj h]
  · rw [validateMedia] at h
    split at h
    next =>
      obtain rfl := Except.ok.inj h
      rfl
    next => exact absurd h (by simp)
  · rw [validateMedia] at h
    split at h
    next =>
      obtain rfl := Except.ok.inj h
      rfl
    next => exact absurd h (by simp)

theorem itemTexts_validate {value output : Json} (h : validateMedia files value = .ok output) :
    itemTexts output = itemTexts value := by
  rcases value with value | items | fields
  · rw [validateMedia] at h
    rw [Except.ok.inj h]
  · rw [validateMedia] at h
    split at h
    next validated hvalidated =>
      obtain rfl := Except.ok.inj h
      show validated.flatMap ownText = items.flatMap ownText
      clear h
      induction items generalizing validated with
      | nil =>
          rw [validateItems] at hvalidated
          rw [Except.ok.inj hvalidated]
      | cons item rest ih =>
          obtain ⟨first, others, hfirst, hothers, rfl⟩ := validateItems_cons hvalidated
          rw [List.flatMap_cons, List.flatMap_cons, ownText_validate hfirst, ih others hothers]
    next => exact absurd h (by simp)
  · rw [validateMedia] at h
    split at h
    next =>
      obtain rfl := Except.ok.inj h
      rfl
    next => exact absurd h (by simp)

variable {method : String}

theorem mediaStrings_validate {value output : Json} (h : validateMedia files value = .ok output) :
    mediaStrings method output = mediaStrings method value := by
  unfold mediaStrings
  split
  next => exact ownText_validate h
  next =>
    rcases value with value | items | fields
    · rw [validateMedia] at h
      rw [Except.ok.inj h]
    · rw [validateMedia] at h
      split at h
      next =>
        obtain rfl := Except.ok.inj h
        rfl
      next => exact absurd h (by simp)
    · rw [validateMedia] at h
      split at h
      next validated hvalidated =>
        obtain rfl := Except.ok.inj h
        have himages : (validated.lookup "images").elim [] itemTexts = (fields.lookup "images").elim [] itemTexts := by
          rcases lookup_validated hvalidated (by decide : "images" ≠ "path") with ⟨hnone, hnone'⟩ | hfound
          · rw [hnone, hnone']
          · obtain ⟨images, checked, himages, hchecked, hmedia⟩ := hfound
            rw [himages, hchecked]
            exact itemTexts_validate hmedia
        have hvideo : (validated.lookup "video").elim [] ownText = (fields.lookup "video").elim [] ownText := by
          rcases lookup_validated hvalidated (by decide : "video" ≠ "path") with ⟨hnone, hnone'⟩ | hfound
          · rw [hnone, hnone']
          · obtain ⟨video, checked, hvideo, hchecked, hmedia⟩ := hfound
            rw [hvideo, hchecked]
            exact ownText_validate hmedia
        show (validated.lookup "images").elim [] itemTexts ++ (validated.lookup "video").elim [] ownText = _
        rw [himages, hvideo]
      next => exact absurd h (by simp)

/-! ## The first argument -/

theorem replaceField_ok {note : List (String × Json)} {key : String} {safe : Json → Except String Json}
    (h : replaceField note key safe = .ok output) : (note.lookup key = none ∧ output = note) ∨
      ∃ value replaced, note.lookup key = some value ∧ safe value = .ok replaced ∧
        output = Dict.set note key replaced := by
  unfold replaceField at h
  split at h
  next hnone => exact Or.inl ⟨hnone, (Except.ok.inj h).symm⟩
  next value hvalue =>
    obtain ⟨replaced, hreplaced, hset⟩ := Runs.bind_eq_ok h
    exact Or.inr ⟨value, replaced, hvalue, hreplaced, (Except.ok.inj hset).symm⟩

theorem fieldPaths_set {note : List (String × Json)} {key : String} {value : Json} (hkey : key ≠ "path")
    (hvalue : pathStrings value = []) {text : String} (h : text ∈ fieldPaths (Dict.set note key value)) :
    text ∈ fieldPaths note := by
  obtain ⟨field, hfield, htext⟩ := mem_fieldPaths.mp h
  rcases Dict.mem_set hfield with rfl | hold
  · rw [ownPaths, if_neg (by simpa using hkey), hvalue] at htext
    exact absurd htext List.not_mem_nil
  · exact mem_fieldPaths.mpr ⟨field, hold, htext⟩

theorem pathStrings_texts (texts : List String) :
    pathStrings (.arr (texts.map (fun text => .scalar (.str text)))) = [] := by
  rw [pathStrings]
  induction texts with
  | nil => rfl
  | cons text rest ih =>
      rw [List.map_cons, itemPaths, ih]
      rfl

theorem safeNote_ok {note : List (String × Json)} (h : safeNote files note = .ok output) :
    (∀ text ∈ mediaStrings "post_note" (.obj output), UnderRoot files text) ∧
      ∀ text ∈ fieldPaths output, text ∈ fieldPaths note := by
  obtain ⟨middle, himages, hvideo⟩ := Runs.bind_eq_ok h
  have hfirst : (∀ text ∈ (middle.lookup "images").elim [] itemTexts, UnderRoot files text) ∧
      ∀ text ∈ fieldPaths middle, text ∈ fieldPaths note := by
    rcases replaceField_ok himages with ⟨hnone, rfl⟩ | ⟨value, replaced, -, hsafe, rfl⟩
    · rw [hnone]
      exact ⟨fun text htext => absurd htext List.not_mem_nil, fun text htext => htext⟩
    · obtain ⟨items, -, hpaths⟩ := Runs.bind_eq_ok hsafe
      obtain ⟨paths, hmapped, hreplaced⟩ := Runs.bind_eq_ok hpaths
      obtain rfl := Except.ok.inj hreplaced
      refine ⟨fun text htext => ?_, fun text htext =>
        fieldPaths_set (by decide) (pathStrings_texts paths) htext⟩
      rw [Dict.lookup_set_self] at htext
      obtain ⟨item, hitem, htext⟩ := List.mem_flatMap.mp htext
      obtain ⟨path, hpath, rfl⟩ := List.mem_map.mp hitem
      rw [List.mem_singleton.mp htext]
      obtain ⟨source, -, hsource⟩ := Runs.exists_of_forall₂ ((Runs.mapM_ok_iff _ _ _).mp hmapped) hpath
      exact safeMediaPath_ok hsource
  have hlast : (∀ text ∈ (output.lookup "video").elim [] ownText, UnderRoot files text) ∧
      (∀ text ∈ fieldPaths output, text ∈ fieldPaths middle) ∧ output.lookup "images" = middle.lookup "images" := by
    rcases replaceField_ok hvideo with ⟨hnone, rfl⟩ | ⟨value, replaced, -, hsafe, rfl⟩
    · rw [hnone]
      exact ⟨fun text htext => absurd htext List.not_mem_nil, fun text htext => htext, rfl⟩
    · obtain ⟨path, hpath, hreplaced⟩ := Runs.bind_eq_ok hsafe
      obtain rfl := Except.ok.inj hreplaced
      refine ⟨fun text htext => ?_, fun text htext => fieldPaths_set (by decide) rfl htext,
        Dict.lookup_set_ne _ _ _ _ (by decide)⟩
      rw [Dict.lookup_set_self] at htext
      rw [List.mem_singleton.mp htext]
      exact safeMediaPath_ok hpath
  refine ⟨fun text htext => ?_, fun text htext => hfirst.2 text (hlast.2.1 text htext)⟩
  rcases List.mem_append.mp htext with htext | htext
  · rw [hlast.2.2] at htext
    exact hfirst.1 text htext
  · exact hlast.1 text htext

theorem mem_valuePaths {items : List Json} {text : String} (h : text ∈ (items.map Argument.value).flatMap argumentPaths) :
    text ∈ itemPaths items := by
  obtain ⟨argument, hargument, htext⟩ := List.mem_flatMap.mp h
  obtain ⟨item, hitem, rfl⟩ := List.mem_map.mp hargument
  exact mem_itemPaths.mpr ⟨item, hitem, htext⟩

theorem guardFirst_ok (hmethod : method ∈ creatorMethods) {args : List Json} {output : List Argument}
    (hargs : ∀ text ∈ itemPaths args, UnderRoot files text) (h : guardFirst files method args = .ok output) :
    (∀ text ∈ firstPaths method output.head?, UnderRoot files text) ∧
      (∀ text ∈ output.flatMap argumentPaths, UnderRoot files text) ∧ (output = [] ↔ args = []) := by
  rcases args with _ | ⟨first, rest⟩
  · rw [guardFirst] at h
    obtain rfl := Except.ok.inj h
    exact ⟨fun text htext => absurd htext List.not_mem_nil, fun text htext => absurd htext List.not_mem_nil, by simp⟩
  · have hrest : ∀ text ∈ (rest.map Argument.value).flatMap argumentPaths, UnderRoot files text := by
      intro text htext
      refine hargs text ?_
      rw [itemPaths]
      exact List.mem_append_right _ (mem_valuePaths htext)
    unfold guardFirst at h
    dsimp only at h
    split at h
    next hfile =>
      obtain ⟨path, hpath, hargument⟩ := Runs.bind_eq_ok h
      obtain rfl := Except.ok.inj hargument
      refine ⟨fun text htext => ?_, fun text htext => ?_, by simp⟩
      · rw [List.head?_cons] at htext
        split at htext
        next =>
          have hown : text ∈ mediaStrings method (.scalar (.str path)) := htext
          unfold mediaStrings at hown
          rw [if_pos hfile] at hown
          rw [List.mem_singleton.mp hown]
          exact safeMediaPath_ok hpath
        next => exact absurd htext List.not_mem_nil
      · rw [List.flatMap_cons, List.mem_append] at htext
        rcases htext with htext | htext
        · split at htext
          next => exact absurd htext List.not_mem_nil
          next => exact absurd htext List.not_mem_nil
        · exact hrest text htext
    next hfile =>
      have hpost : method = "post_note" := by
        rcases List.mem_append.mp hmethod with hmem | hmem
        · exact absurd (List.contains_iff_mem.mpr hmem) hfile
        · exact List.mem_singleton.mp hmem
      have htrue : (method == "post_note") = true := beq_iff_eq.mpr hpost
      have hplain : ∀ value, (∀ note, value ≠ Json.obj note) → mediaStrings method value = [] := by
        intro value hvalue
        unfold mediaStrings
        rw [if_neg hfile]
        split
        next note => exact absurd rfl (hvalue note)
        next => rfl
      have hsame : (∀ note, first ≠ Json.obj note) → output = (first :: rest).map .value →
          (∀ text ∈ firstPaths method output.head?, UnderRoot files text) ∧
            (∀ text ∈ output.flatMap argumentPaths, UnderRoot files text) ∧ (output = [] ↔ first :: rest = []) := by
        rintro hnote rfl
        refine ⟨fun text htext => ?_, fun text htext => hargs text (mem_valuePaths htext), by simp⟩
        have hmedia : text ∈ mediaStrings method first := htext
        rw [hplain first hnote] at hmedia
        exact absurd hmedia List.not_mem_nil
      rw [htrue] at h
      rcases first with value | items | note
      · exact hsame (by simp) (Except.ok.inj h).symm
      · exact hsame (by simp) (Except.ok.inj h).symm
      · obtain ⟨checked, hchecked, hargument⟩ := Runs.bind_eq_ok h
        obtain rfl := Except.ok.inj hargument
        obtain ⟨hmedia, hpaths⟩ := safeNote_ok hchecked
        refine ⟨fun text htext => ?_, fun text htext => ?_, by simp⟩
        · rw [hpost] at htext
          exact hmedia text htext
        · rw [List.flatMap_cons, List.mem_append] at htext
          rcases htext with htext | htext
          · refine hargs text ?_
            rw [itemPaths]
            exact List.mem_append_left _ (hpaths text htext)
          · exact hrest text htext

/-! ## Requests -/

variable {runtime : SpiderRuntime}

variable {kwargs : List (String × Json)}

theorem callMethod_ok {namespace' : String} {args : List Argument}
    {effect : Effect} (h : callMethod runtime namespace' method args kwargs = .ok effect) :
    runtime.target namespace' = .ok () ∧ runtime.isCallable namespace' method = true ∧
      ∃ passed, effect = .call namespace' method args passed ∧ (namespace' = "creator" → passed = kwargs) := by
  unfold callMethod at h
  obtain ⟨_, htarget, h⟩ := Runs.bind_eq_ok h
  split at h
  next hcallable =>
    obtain rfl := Except.ok.inj h
    refine ⟨htarget, hcallable, _, rfl, ?_⟩
    rintro rfl
    exact if_neg (by decide)
  next => exact absurd h (by simp)

/-- What a guarded call has passed. -/
theorem guardedCall_ok {namespace' : String} {args : List Json} {effect : Effect}
    (h : guardedCall runtime namespace' method args kwargs = .ok effect) :
    ∃ items fields output passed, validateItems runtime.files args = .ok items ∧
      validateFields runtime.files kwargs = .ok fields ∧
      guardArguments runtime.files namespace' method items = .ok output ∧ runtime.target namespace' = .ok () ∧
      runtime.isCallable namespace' method = true ∧ effect = .call namespace' method output passed ∧
      (namespace' = "creator" → passed = fields) := by
  unfold guardedCall at h
  obtain ⟨items, hitems, h⟩ := Runs.bind_eq_ok h
  obtain ⟨fields, hfields, h⟩ := Runs.bind_eq_ok h
  obtain ⟨output, houtput, h⟩ := Runs.bind_eq_ok h
  obtain ⟨htarget, hcallable, passed, heffect, hpassed⟩ := callMethod_ok h
  exact ⟨items, fields, output, passed, hitems, hfields, houtput, htarget, hcallable, heffect, hpassed⟩

/-- A request to a creator method that nothing but its first argument may stop. -/
structure Admitted (runtime : SpiderRuntime) (method : String) (kwargs : List (String × Json)) : Prop where
  confirmed : ("creator", method) ∈ mutating → Confirmed kwargs
  validated : ∃ output, validateFields runtime.files (Dict.erase kwargs "confirm") = .ok output
  target : runtime.target "creator" = .ok ()
  callable : runtime.isCallable "creator" method = true

/-- The first argument, if it comes by keyword, comes as `path` or names paths under the root. -/
def KeywordMediaSafe (runtime : SpiderRuntime) (first : String → String) (method : String)
    (kwargs : List (String × Json)) : Prop :=
  first method = "path" ∨ ∀ value, (Dict.erase kwargs "confirm").lookup (first method) = some value →
    ∀ text ∈ mediaStrings method value, UnderRoot runtime.files text

theorem keyword_media_iff {first : String → String}     (h : validateFields runtime.files (Dict.erase kwargs "confirm") = .ok output) :
    (∀ text ∈ firstPaths method ((output.lookup (first method)).map .value), UnderRoot runtime.files text) ↔
      KeywordMediaSafe runtime first method kwargs := by
  unfold KeywordMediaSafe
  by_cases hpath : first method = "path"
  · refine iff_of_true (fun text htext => ?_) (Or.inl hpath)
    rw [hpath] at htext
    rcases lookup_validateFields h "path" with ⟨-, hnone⟩ | ⟨value, validated, -, hvalidated, hfield⟩
    · rw [hnone] at htext
      exact absurd htext List.not_mem_nil
    · rw [hvalidated] at htext
      rcases (validateField_ok hfield).2 with ⟨-, safe, hsafe, hunder⟩ | ⟨hne, -⟩
      · dsimp only at hsafe
        rw [hsafe] at htext
        have hmedia : text ∈ mediaStrings method (.scalar (.str safe)) := htext
        unfold mediaStrings at hmedia
        split at hmedia
        next =>
          rw [List.mem_singleton.mp hmedia]
          exact hunder
        next => exact absurd hmedia List.not_mem_nil
      · exact absurd rfl hne
  · rw [or_iff_right hpath]
    rcases lookup_validated h hpath with ⟨hnone, hnone'⟩ | ⟨value, validated, hvalue, hvalidated, hmedia⟩
    · rw [hnone, hnone']
      exact iff_of_true (fun text htext => absurd htext List.not_mem_nil) (fun value hvalue => absurd hvalue (by simp))
    · rw [hvalue, hvalidated]
      have hsame : firstPaths method ((some validated).map .value) = mediaStrings method value :=
        mediaStrings_validate hmedia
      rw [hsame]
      constructor
      · rintro hunder _ hother text htext
        obtain rfl := Option.some.inj hother
        exact hunder text htext
      · intro hunder
        exact hunder value rfl

/-- A guarded call gives a creator method only paths under the root, if the keyword that stands for its first argument
    does. -/
theorem guardedCall_guarded {first : String → String} {args : List Json}
    {passed : List (String × Json)} {output : List Argument} (hmethod : method ∈ creatorMethods)
    (hcall : guardedCall runtime "creator" method args (Dict.erase kwargs "confirm")
      = .ok (.call "creator" method output passed))
    (hkeyword : args = [] → KeywordMediaSafe runtime first method kwargs) :
    ∀ text ∈ receivedPaths first method output passed, UnderRoot runtime.files text := by
  obtain ⟨items, fields, guarded, _, hitems, hfields, hguarded, -, -, heffect, hpassed⟩ := guardedCall_ok hcall
  obtain ⟨-, -, rfl, rfl⟩ := Effect.call.inj heffect
  obtain rfl := hpassed rfl
  obtain ⟨hfirst, hothers, hempty⟩ := guardFirst_ok hmethod (itemPaths_validate args items hitems) hguarded
  intro text htext
  rcases List.mem_append.mp htext with htext | htext
  · rcases List.mem_append.mp htext with htext | htext
    · rcases output with _ | ⟨argument, rest⟩
      · have hargs : args = [] := by
          rcases args with _ | ⟨item, rest⟩
          · rfl
          · obtain ⟨_, _, -, -, rfl⟩ := validateItems_cons hitems
            exact absurd (hempty.mp rfl) (List.cons_ne_nil _ _)
        refine (keyword_media_iff hfields).mpr (hkeyword hargs) text ?_
        unfold boundFirst at htext
        rcases hlookup : passed.lookup (first method) with _ | value
        · rw [hlookup] at htext
          exact htext
        · rw [hlookup] at htext
          exact htext
      · unfold boundFirst at htext
        rcases hlookup : passed.lookup (first method) with _ | value
        · rw [hlookup] at htext
          exact hfirst text htext
        · rw [hlookup] at htext
          exact absurd htext List.not_mem_nil
    · exact hothers text htext
  · exact fieldPaths_validate _ passed hfields text htext

theorem executeMethod_call {namespace' called : String} {args : List Json} {passed : List (String × Json)}
    {output : List Argument} {target : String}
    (h : executeMethod runtime namespace' method args kwargs = .ok (.call target called output passed)) :
    ((namespace', method) ∈ mutating → Confirmed kwargs) ∧
      guardedCall runtime namespace' method args (Dict.erase kwargs "confirm") = .ok (.call target called output passed) := by
  unfold executeMethod at h
  split at h
  next => exact absurd h (by simp)
  next =>
    split at h
    next => exact absurd h (by simp)
    next hconfirm =>
      refine ⟨fun hmutating => ?_, ?_⟩
      · by_contra hnone
        rw [List.contains_iff_mem.mpr hmutating, Bool.eq_false_iff.mpr hnone] at hconfirm
        exact hconfirm rfl
      · dsimp only at h
        split at h
        next =>
          obtain ⟨-, -, heffect⟩ := Runs.bind_eq_ok h
          exact absurd (Except.ok.inj heffect) (by simp)
        next =>
          split at h
          next =>
            obtain ⟨-, -, heffect⟩ := Runs.bind_eq_ok h
            have hwatch := Except.ok.inj heffect
            unfold watchArguments at hwatch
            split at hwatch
            next => exact absurd hwatch (by simp)
            next => exact absurd hwatch (by simp)
          next =>
            split at h
            next => exact absurd (Except.ok.inj h) (by simp)
            next =>
              split at h
              next => exact absurd (Except.ok.inj h) (by simp)
              next => exact h

theorem executeMethod_admitted (hmethod : method ∈ creatorMethods)
    (h : Admitted runtime method kwargs) (houtput : validateFields runtime.files (Dict.erase kwargs "confirm") = .ok output) :
    executeMethod runtime "creator" method [] kwargs = .ok (.call "creator" method [] output) := by
  have hguarded : guardedCall runtime "creator" method [] (Dict.erase kwargs "confirm")
      = .ok (.call "creator" method [] output) := by
    unfold guardedCall
    rw [houtput]
    show callMethod runtime "creator" method [] output = _
    unfold callMethod
    rw [h.target]
    show (if runtime.isCallable "creator" method then _ else _) = _
    rw [if_pos h.callable, if_neg (by decide)]
  have hall : ∀ method ∈ creatorMethods, ((publicMethods.lookup "creator").getD []).contains method = true := by decide
  have hpublic := hall method hmethod
  unfold executeMethod
  rw [hpublic, Bool.not_true, if_neg Bool.false_ne_true, if_neg]
  · exact hguarded
  · intro hrefused
    obtain ⟨hmutating, hconfirm⟩ := Bool.and_eq_true_iff.mp hrefused
    have hconfirmed : truthyJson (popped kwargs "confirm" (.scalar (.bool false))) = true :=
      h.confirmed (List.contains_iff_mem.mp hmutating)
    rw [hconfirmed] at hconfirm
    exact absurd hconfirm (by simp)

/-- **Exactly which requests keep the guards**: all but those to a creator method that are admitted and name, by a
    keyword other than `path`, a first argument with a path outside the root. -/
theorem execute_guarded_iff (runtime : SpiderRuntime) (first : String → String) (namespace' method : String)
    (args : List Json) (kwargs : List (String × Json)) :
    (∀ effect, execute runtime namespace' method args kwargs = .ok effect → Guarded runtime.files first kwargs effect) ↔
      (strip namespace'.toLower = "creator" → strip method ∈ creatorMethods → args = [] →
        Admitted runtime (strip method) kwargs → KeywordMediaSafe runtime first (strip method) kwargs) := by
  unfold execute
  generalize strip namespace'.toLower = place
  generalize strip method = called
  constructor
  · rintro hall rfl hmethod rfl hadmitted
    obtain ⟨output, houtput⟩ := hadmitted.validated
    have hreceived := (hall _ (executeMethod_admitted hmethod hadmitted houtput)).1 rfl hmethod
    refine (keyword_media_iff houtput).mp (fun text htext => hreceived text ?_)
    refine List.mem_append_left _ (List.mem_append_left _ ?_)
    unfold boundFirst
    rcases hlookup : output.lookup (first called) with _ | value
    · rw [hlookup] at htext
      exact htext
    · rw [hlookup] at htext
      exact htext
  · intro hkeyword effect heffect
    cases effect with
    | call target name output passed =>
        obtain ⟨hconfirmed, hguarded⟩ := executeMethod_call heffect
        obtain ⟨_, fields, _, _, -, hfields, -, htarget, hcallable, hcall, -⟩ := guardedCall_ok hguarded
        obtain ⟨rfl, rfl, -, -⟩ := Effect.call.inj hcall
        refine ⟨?_, hconfirmed⟩
        rintro rfl hmethod
        refine guardedCall_guarded hmethod hguarded (fun hargs => ?_)
        exact hkeyword rfl hmethod hargs ⟨hconfirmed, ⟨fields, hfields⟩, htarget, hcallable⟩
    | categories place => trivial
    | startWatch roomId seconds maxEvents sid => trivial
    | watchEvents watchId => trivial
    | stopWatch watchId => trivial

/-! ## A path by keyword -/

def resolvePasswd (text : String) : Option (List String) := if text == "/etc/passwd" then some ["etc", "passwd"] else none

theorem resolvePasswd_render (text : String) (path : List String) (h : resolvePasswd text = some path) :
    resolvePasswd (renderPath path) = some path := by
  unfold resolvePasswd at h
  split at h
  next =>
    obtain rfl := Option.some.inj h
    decide
  next => exact absurd h (by simp)

/-- A file system with a file outside the media root. -/
def passwdFiles : MediaFiles := ⟨["var", "lib", "xhs-collector", "inbox"], resolvePasswd, fun _ => true, resolvePasswd_render⟩

def passwdRuntime : SpiderRuntime := ⟨passwdFiles, fun _ => .ok (), fun _ _ => true, .obj []⟩

/-- A method whose first parameter is `file` is called with a path outside the root. -/
theorem keyword_path_is_passed :
    execute passwdRuntime "creator" "get_file_info" [] [("file", .scalar (.str "/etc/passwd"))]
        = .ok (.call "creator" "get_file_info" [] [("file", .scalar (.str "/etc/passwd"))]) ∧
      "/etc/passwd" ∈ receivedPaths (fun _ => "file") "get_file_info" [] [("file", .scalar (.str "/etc/passwd"))] ∧
      ¬ UnderRoot passwdFiles "/etc/passwd" := by
  have hplace : strip "creator".toLower = "creator" := by decide +kernel
  have hmethod : strip "get_file_info" = "get_file_info" := by decide +kernel
  have hadmitted : Admitted passwdRuntime "get_file_info" [("file", .scalar (.str "/etc/passwd"))] :=
    ⟨fun hmutating => absurd hmutating (by decide), ⟨_, rfl⟩, rfl, rfl⟩
  refine ⟨?_, by decide +kernel, ?_⟩
  · unfold execute
    rw [hplace, hmethod]
    exact executeMethod_admitted (by decide) hadmitted rfl
  rintro ⟨path, hpath, hroot⟩
  obtain rfl : ["etc", "passwd"] = path := Option.some.inj hpath
  exact absurd hroot (by decide)

end TradingHarness
