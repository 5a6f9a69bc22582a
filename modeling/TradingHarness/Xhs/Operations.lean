import TradingHarness.Library.Json
import TradingHarness.Tdx.MacFields

set_option autoImplicit false

/-! # Operations

`operations.py`: the methods of the upstream clients that a message may call, and the guards of `SpiderRuntime.execute`
on file paths and on methods that change an account. The clients and the file system are parameters. -/

namespace TradingHarness

/-! ## Tables -/

/-- The methods of each namespace that a request may name. -/
def publicMethods : List (String × List String) :=
  [("pc",
    ["get_homefeed_all_channel", "get_homefeed_recommend", "get_homefeed_recommend_by_num", "get_user_info",
      "get_user_me", "get_user_note_info", "get_user_all_notes", "get_user_like_note_info",
      "get_user_all_like_note_info", "get_user_collect_note_info", "get_user_all_collect_note_info", "get_note_info",
      "share_code", "get_widgets", "worldcup_note_seo", "report_note_metrics", "report_history_web",
      "get_search_keyword", "get_web_config", "get_system_config", "get_trending_queries", "get_celestial_lt",
      "get_user_board", "get_dqa_recommend", "get_global_config", "get_worldcup_display_period",
      "get_worldcup_live_bar", "sync_search_history", "sync_search_history_captured", "search_onebox",
      "search_filter", "search_note", "search_some_note", "search_user", "search_some_user", "get_note_out_comment",
      "get_note_all_out_comment", "get_note_inner_comment", "get_note_all_inner_comment", "get_note_all_comment",
      "get_unread_message", "get_metions", "get_all_metions", "get_likesAndcollects", "get_all_likesAndcollects",
      "get_new_connections", "get_all_new_connections", "get_note_no_water_video", "get_note_no_water_img"]),
    ("creator",
    ["get_user_info", "get_topic", "get_location_info", "get_fileIds", "get_file_ids", "upload_media",
      "query_transcode", "encryption", "post_note", "get_file_info", "extract_video_cover_and_metadata",
      "get_posted_notes_page", "get_publish_note_info", "get_all_posted_notes", "get_all_publish_note_info"]),
    ("pgy",
    ["get_all_categories", "choose_categories", "get_track", "get_user_by_page", "get_some_user", "get_user_detail",
      "get_user_fans_detail", "get_user_fans_history", "get_user_notes_detail", "get_self_info",
      "get_self_info_signed", "send_invite"]),
    ("qianfan",
    ["get_all_categories", "choose_categories", "get_user_by_page", "get_some_user", "get_user_detail",
      "get_user_cooperation", "get_user_shop", "get_user_item", "get_user_fans"]),
    ("live",
    ["list_categories", "square_feed", "current_room_info", "join_room", "viewer_heart", "join_business_base_info",
      "user_card", "join_comment_info", "aggregate_business_info", "resource_by_id", "gift_panel", "charge_panel",
      "user_violation", "send_comment", "mic_relation", "get_chats", "get_group_chats", "get_chat_info",
      "get_message_history", "get_following", "get_unread", "get_unread_count", "get_web_config",
      "get_system_config", "get_user_me", "get_recent_chats", "get_emoji_config", "get_redmoji_version",
      "get_message_config", "voice_convert", "get_all_offline_messages", "report_offline_message_ack",
      "get_group_message_history", "revoke_message", "revoke_group_all_message", "report_total_unread",
      "get_message_location_list", "report_message_location_read", "add_personal_emoji", "delete_personal_emoji",
      "get_smile_file_id", "get_stick_top_messages", "delete_message", "send_captured_short_link_message",
      "send_short_link_message", "get_celestial_lt", "detect_message_policy", "mark_messages_read", "connect_push",
      "connect_push_from_storage", "watch", "events", "stop_watch"])]

/-- The methods that can change an account. -/
def mutating : List (String × String) :=
  [("pc", "sync_search_history"), ("pc", "sync_search_history_captured"), ("pc", "report_note_metrics"),
    ("pc", "report_history_web"), ("creator", "upload_media"), ("creator", "post_note"), ("pgy", "send_invite"),
    ("live", "send_comment"), ("live", "revoke_message"), ("live", "revoke_group_all_message"),
    ("live", "report_offline_message_ack"), ("live", "report_total_unread"),
    ("live", "report_message_location_read"), ("live", "add_personal_emoji"), ("live", "delete_personal_emoji"),
    ("live", "delete_message"), ("live", "send_captured_short_link_message"), ("live", "send_short_link_message"),
    ("live", "mark_messages_read")]

/-! ## Media paths -/

/-- `str` of an absolute path. -/
def renderPath (path : List String) : String := String.join (path.map (fun part => "/" ++ part))

/-- The file system. `resolve` is `Path(value).expanduser().resolve()`, where it does not raise; a resolved path
    resolves to itself. -/
structure MediaFiles where
  /-- `ALLOWED_MEDIA_ROOT` -/
  root : List String
  resolve : String → Option (List String)
  isFile : List String → Bool
  resolved : ∀ value path, resolve value = some path → resolve (renderPath path) = some path

def safeMediaPath (files : MediaFiles) : Json → Except String String
  | .scalar (.str value) =>
    if value == "" then .error "media paths must be non-empty strings"
    else
      match files.resolve value with
      | none => .error "media path cannot be resolved"
      | some path =>
        if !files.root.isPrefixOf path then .error "media path must be under the configured XHS media inbox"
        else if !files.isFile path then .error "media file is not present in the XHS media inbox"
        else .ok (renderPath path)
  | _ => .error "media paths must be non-empty strings"

section Validate

variable (files : MediaFiles)

mutual

/-- `_validate_media`: only a field named `path` is checked, at any depth. -/
def validateMedia : Json → Except String Json
  | .scalar value => .ok (.scalar value)
  | .arr items =>
    match validateItems items with
    | .ok output => .ok (.arr output)
    | .error error => .error error
  | .obj fields =>
    match validateFields fields with
    | .ok output => .ok (.obj output)
    | .error error => .error error
termination_by structural value => value

def validateItems : List Json → Except String (List Json)
  | [] => .ok []
  | item :: rest =>
    match validateMedia item, validateItems rest with
    | .ok output, .ok others => .ok (output :: others)
    | .error error, _ => .error error
    | .ok _, .error error => .error error
termination_by structural items => items

def validateFields : List (String × Json) → Except String (List (String × Json))
  | [] => .ok []
  | field :: rest =>
    match validateField field, validateFields rest with
    | .ok output, .ok others => .ok (output :: others)
    | .error error, _ => .error error
    | .ok _, .error error => .error error
termination_by structural fields => fields

def validateField : String × Json → Except String (String × Json)
  | (key, value) =>
    if key == "path" then
      match safeMediaPath files value with
      | .ok output => .ok (key, .scalar (.str output))
      | .error error => .error error
    else
      match validateMedia value with
      | .ok output => .ok (key, output)
      | .error error => .error error
termination_by structural field => field

end

end Validate

/-! ## Execution -/

/-- An argument of a call: a value, or the content of the file that was read in its place. -/
inductive Argument
  | value (json : Json)
  | bytes (path : String)

/-- What a request comes to. -/
inductive Effect
  | call (namespace' method : String) (args : List Argument) (kwargs : List (String × Json))
  | categories (namespace' : String)
  | startWatch (roomId seconds maxEvents sid : Json)
  | watchEvents (watchId : Json)
  | stopWatch (watchId : Json)

/-- The clients of a process: which of them can be had, which methods they have, and the cookies that are passed to
    some of them. -/
structure SpiderRuntime where
  files : MediaFiles
  target : String → Except String Unit
  isCallable : String → String → Bool
  cookies : Json

/-- Truth of a JSON value. -/
def truthyJson : Json → Bool
  | .scalar .null => false
  | .scalar (.bool value) => value
  | .scalar (.int value) => value != 0
  | .scalar (.float value) => value != 0
  | .scalar (.str value) => value != ""
  | .arr items => !items.isEmpty
  | .obj fields => !fields.isEmpty

variable (runtime : SpiderRuntime) (namespace' method : String) (args : List Json)
  (kwargs : List (String × Json))

/-- `kwargs.pop(key, default)` -/
def popped (key : String) (otherwise : Json) : Json := (kwargs.lookup key).getD otherwise

def emptyText : Json := .scalar (.str "")

/-- The items that a loop over the value has, where it does not raise. -/
def iterated : Json → Except String (List Json)
  | .arr items => .ok items
  | .obj fields => .ok (fields.map (fun field => .scalar (.str field.1)))
  | .scalar (.str value) => .ok (value.toList.map (fun char => .scalar (.str char.toString)))
  | .scalar _ => .error "object is not iterable"

/-- A field of a note once it is replaced by what `safe` makes of it, if the note has it. -/
def replaceField (note : List (String × Json)) (key : String) (safe : Json → Except String Json) :
    Except String (List (String × Json)) :=
  match note.lookup key with
  | none => .ok note
  | some value => do
    let output ← safe value
    return Dict.set note key output

/-- The images and the video of a note that is given as the first argument. -/
def safeNote (files : MediaFiles) (note : List (String × Json)) : Except String (List (String × Json)) := do
  let note ← replaceField note "images" (fun value => do
    let paths ← (← iterated value).mapM (safeMediaPath files)
    return .arr (paths.map (fun path => .scalar (.str path))))
  replaceField note "video" (fun value => do
    let path ← safeMediaPath files value
    return .scalar (.str path))

/-- The creator methods that take the path of a file. -/
def fileMethods : List String := ["upload_media", "get_file_info", "extract_video_cover_and_metadata"]

/-- The first argument, as it is checked for the method. -/
def guardFirst (files : MediaFiles) (method : String) : List Json → Except String (List Argument)
  | [] => .ok []
  | first :: rest =>
    if fileMethods.contains method then do
      let path ← safeMediaPath files first
      let argument := if method == "upload_media" then Argument.value (.scalar (.str path)) else .bytes path
      return argument :: rest.map .value
    else
      match method == "post_note", first with
      | true, .obj note => do
        let note ← safeNote files note
        return .value (.obj note) :: rest.map .value
      | _, _ => .ok ((first :: rest).map .value)

/-- The arguments of a creator method have their first one checked. -/
def guardArguments (files : MediaFiles) (namespace' method : String) (args : List Json) : Except String (List Argument) :=
  if namespace' == "creator" then guardFirst files method args else .ok (args.map .value)

/-- The room, the sender and the length of a watch. -/
def watchArguments : Effect :=
  let sid := popped kwargs "sid" emptyText
  let maxEvents := popped kwargs "max_events" (.scalar (.int 50))
  let seconds := popped kwargs "seconds" (.scalar (.int 60))
  if method == "connect_push" then
    .startWatch (popped kwargs "room_id" (args[1]?.getD emptyText)) seconds maxEvents
      (if truthyJson sid then sid else args.head?.getD emptyText)
  else
    .startWatch (args.head?.getD (popped kwargs "room_id" emptyText)) (args[1]?.getD seconds) maxEvents sid

/-- A call of the client's method. The clients of two namespaces take the cookies. -/
def callMethod (args : List Argument)
    (kwargs : List (String × Json)) : Except String Effect := do
  runtime.target namespace'
  if runtime.isCallable namespace' method then
    .ok (.call namespace' method args
      (if namespace' == "pgy" || namespace' == "qianfan" then Dict.set kwargs "cookies" runtime.cookies else kwargs))
  else .error ("Spider_XHS method is unavailable: " ++ namespace' ++ "." ++ method)

/-- The guards on files, and the call behind them. -/
def guardedCall :
    Except String Effect := do
  let args ← validateItems runtime.files args
  let kwargs ← validateFields runtime.files kwargs
  let args ← guardArguments runtime.files namespace' method args
  callMethod runtime namespace' method args kwargs

/-- `SpiderRuntime.execute`, on a namespace in lower case without white space around it. -/
def executeMethod : Except String Effect :=
  if !((publicMethods.lookup namespace').getD []).contains method then
    .error ("unsupported Spider_XHS operation: " ++ namespace' ++ "." ++ method)
  else if mutating.contains (namespace', method) && !truthyJson (popped kwargs "confirm" (.scalar (.bool false))) then
    .error (namespace' ++ "." ++ method ++ " changes account state; add \x7b\"confirm\":true\x7d")
  else
    let kwargs := Dict.erase kwargs "confirm"
    if (namespace' == "pgy" || namespace' == "qianfan") && method == "choose_categories" then do
      runtime.target namespace'
      return .categories namespace'
    else if namespace' == "live" && ["watch", "connect_push", "connect_push_from_storage"].contains method then do
      runtime.target namespace'
      return watchArguments method args kwargs
    else if namespace' == "live" && method == "events" then
      .ok (.watchEvents (args.head?.getD (popped kwargs "watch_id" emptyText)))
    else if namespace' == "live" && method == "stop_watch" then
      .ok (.stopWatch (args.head?.getD (popped kwargs "watch_id" emptyText)))
    else guardedCall runtime namespace' method args kwargs

def execute :
    Except String Effect :=
  executeMethod runtime (strip namespace'.toLower) (strip method) args kwargs

end TradingHarness
