import TradingHarness.Library.Dict
import TradingHarness.Library.Driven
import Mathlib.Data.List.Basic

set_option autoImplicit false

/-! # Webhook targets

`webhook-targets.mjs`: the target groups of the dashboard are rows of the ledger and entries of the maps that the relay
sends by. Every call runs without interruption from one `await` to the next. -/

namespace TradingHarness.Webhooks

/-! ## Targets -/

/-- A row of `feishu_group_relay_webhook_targets`; `address` is what its ciphertext decrypts to, if it does. -/
structure Target where
  chatName : String
  address : Option String
  keyword : String
  websocketChatId : Option String
  botId : Option String
  managed : Bool
deriving DecidableEq

/-- What `stored` keeps of a target. -/
structure Meta where
  name : String
  websocketChatId : Option String
  botId : Option String
  managed : Bool

def Target.meta (target : Target) : Meta := ⟨target.chatName, target.websocketChatId, target.botId, target.managed⟩

/-- The maps of the process. -/
structure Maps where
  webhooks : List (String × String)
  keywords : List (String × String)
  stored : List (String × Meta) := []
  unreadable : List (String × String) := []

def apply (chatId : String) (target : Target) (url : String) (maps : Maps) : Maps where
  webhooks := Dict.set maps.webhooks chatId url
  keywords := Dict.set maps.keywords chatId target.keyword
  stored := Dict.set maps.stored chatId target.meta
  unreadable := Dict.erase maps.unreadable chatId

/-- The body of the loop of `load`. -/
def loadRow (envIds : List String) (maps : Maps) (row : String × Target) : Maps :=
  if envIds.contains row.1 then maps
  else
    match row.2.address with
    | some url => apply row.1 row.2 url maps
    | none => { maps with unreadable := Dict.set maps.unreadable row.1 row.2.chatName }

/-- The end of `remove`. -/
def clear (chatId : String) (maps : Maps) : Maps where
  webhooks := Dict.erase maps.webhooks chatId
  keywords := Dict.erase maps.keywords chatId
  stored := Dict.erase maps.stored chatId
  unreadable := Dict.erase maps.unreadable chatId

def targetOfGroup (wsId : String) (maps : Maps) : String :=
  if wsId = "" then ""
  else ((maps.stored.find? (fun entry => entry.2.websocketChatId == some wsId)).map Prod.fst).getD ""

/-! ## Calls -/

/-- What the platform does with texts. -/
structure Platform where
  trim : String → String
  parseWebhookUrl : String → Option String

/-- A bot that `bots` has made or found. -/
structure Bot where
  webhook : String
  botId : String
  keywords : List String

/-- Where a call waits. -/
inductive Call
  /-- `addManaged` for its bot. -/
  | ensuring (chatName wsId word : String)
  /-- `addExisting` for the group's bot. -/
  | adopting (chatName wsId : String)
  /-- `store` for its test message. -/
  | testing (chatId : String) (target : Target)
  /-- `store` for the ledger, before and after the row is written. -/
  | saving (chatId : String) (target : Target)
  | saved (chatId : String) (target : Target)
  /-- `remove` for the bot's removal, and for the ledger before and after the row is gone. -/
  | removingBot (chatId : String)
  | deleting (chatId : String)
  | deleted (chatId : String)
  /-- `load` for the ledger, before and after the rows are read. -/
  | loading
  | loaded (rows : List (String × Target))

structure World where
  rows : List (String × Target)
  maps : Maps
  calls : List Call := []
  /-- The targets that were removed and not added since. -/
  gone : List String := []

inductive Op
  | add (name webhookUrl keyword websocketChatId chatId : String)
  | addManaged (name websocketChatId keyword : String)
  | addExisting (name websocketChatId : String)
  | remove (chatId : String) (inUse : Bool)
  | load
  /-- The bot of a call arrives, or none. `newId` is the id that `store` takes without one. -/
  | bot (n : ℕ) (answer : Option Bot) (newId : String)
  /-- A test message has gone out, or not. -/
  | tested (n : ℕ) (ok : Bool) (newId : String)
  | botRemoved (n : ℕ)
  /-- The ledger does what a call asks for, or refuses. -/
  | ledger (n : ℕ) (ok : Bool)
  /-- The ledger's answer arrives. -/
  | reply (n : ℕ)

section Calls

variable (platform : Platform) (env : List (String × String))

def envIds : List String := env.map Prod.fst

def checkedName (name : String) : Option String :=
  if platform.trim name = "" ∨ 120 < (platform.trim name).length then none else some (platform.trim name)

def checkedGroupId (websocketChatId : String) : Option String :=
  let wsId := platform.trim websocketChatId
  if wsId = "" ∨ (6 ≤ wsId.length ∧ wsId.length ≤ 24 ∧ wsId.toList.all Char.isDigit) then some wsId else none

/-- `OFFICIAL_CHAT_ID` -/
def isOfficialChatId (chatId : String) : Bool :=
  match chatId.toList with
  | 'o' :: 'c' :: '_' :: rest => !rest.isEmpty && rest.all Char.isAlphanum
  | _ => false

def World.withCall (call : Call) (world : World) : World := { world with calls := world.calls ++ [call] }

def World.endCall (n : ℕ) (world : World) : World := { world with calls := world.calls.eraseIdx n }

/-- `store`, up to its first `await`. An id that was removed is added again. -/
def store (chatId : String) (target : Target) (url : String) (verified : Bool) (newId : String) (world : World) : World :=
  if world.maps.webhooks.any (fun entry => entry.2 == url && !(entry.1 == chatId)) then world
  else
    let chatId := if verified && chatId == "" then newId else chatId
    { world with
      calls := world.calls ++ [if verified then .saving chatId target else .testing chatId target]
      gone := world.gone.filter (fun id => !(id == chatId)) }

def targetFor (chatName url word wsId : String) (botId : Option String) (managed : Bool) : Target :=
  ⟨chatName, some url, word, if wsId = "" then none else some wsId, botId, managed⟩

def add (name webhookUrl keyword websocketChatId chatId : String) (world : World) : World :=
  let word := platform.trim keyword
  match checkedName platform name, platform.parseWebhookUrl webhookUrl, checkedGroupId platform websocketChatId with
  | some chatName, some url, some wsId =>
      if word = "" ∨ 40 < word.length then world
      else
        let id := platform.trim chatId
        if id = "" then store (targetOfGroup wsId world.maps) (targetFor chatName url word wsId none false) url false "" world
        else if (envIds env).contains id then world
        else if (world.maps.stored.lookup id).isNone && (world.maps.unreadable.lookup id).isNone && !isOfficialChatId id then world
        else store id (targetFor chatName url word wsId none false) url false "" world
  | _, _, _ => world

def defaultManagedKeyword : String := "转发"

/-- `addManaged`, up to the bot. -/
def addManaged (name websocketChatId keyword : String) (world : World) : World :=
  let word := if platform.trim keyword = "" then defaultManagedKeyword else platform.trim keyword
  match checkedName platform name, checkedGroupId platform websocketChatId with
  | some chatName, some wsId => if wsId = "" ∨ 40 < word.length then world else world.withCall (.ensuring chatName wsId word)
  | _, _ => world

/-- `addExisting`, up to the bot. -/
def addExisting (name websocketChatId : String) (world : World) : World :=
  match checkedName platform name, checkedGroupId platform websocketChatId with
  | some chatName, some wsId => if wsId = "" then world else world.withCall (.adopting chatName wsId)
  | _, _ => world

/-- `remove`, up to its first `await`. -/
def remove (chatId : String) (inUse : Bool) (world : World) : World :=
  let id := platform.trim chatId
  if (envIds env).contains id then world
  else if (world.maps.stored.lookup id).isNone && (world.maps.unreadable.lookup id).isNone then world
  else if inUse then world
  else
    match world.maps.stored.lookup id with
    | some entry => world.withCall (if entry.managed && entry.botId.isSome && entry.websocketChatId.isSome then .removingBot id else .deleting id)
    | none => world.withCall (.deleting id)

/-- What a call makes of its bot. -/
def withBot (call : Call) (bot : Bot) (newId : String) (world : World) : World :=
  let botId := if bot.botId = "" then none else some bot.botId
  match call, platform.parseWebhookUrl bot.webhook with
  | .ensuring chatName wsId word, some url =>
      store (targetOfGroup wsId world.maps) (targetFor chatName url word wsId botId true) url false newId world
  | .adopting chatName wsId, some url =>
      store (targetOfGroup wsId world.maps)
        (targetFor chatName url (platform.trim (bot.keywords.head?.getD "")) wsId botId false) url true newId world
  | _, _ => world

/-- What the ledger does for a call. -/
def atLedger (n : ℕ) (call : Call) (world : World) : World :=
  match call with
  | .saving chatId target =>
      { world with rows := Dict.set world.rows chatId target, calls := world.calls.set n (.saved chatId target) }
  | .deleting chatId => { world with rows := Dict.erase world.rows chatId, calls := world.calls.set n (.deleted chatId) }
  | .loading => { world with calls := world.calls.set n (.loaded world.rows) }
  | _ => world

/-- What a call does with the ledger's answer. -/
def atReply (n : ℕ) (call : Call) (world : World) : World :=
  match call with
  | .saved chatId target =>
      { world.endCall n with maps := target.address.elim world.maps (fun url => apply chatId target url world.maps) }
  | .deleted chatId => { world.endCall n with maps := clear chatId world.maps, gone := chatId :: world.gone }
  | .loaded rows => { world.endCall n with maps := rows.foldl (loadRow (envIds env)) world.maps }
  | _ => world

def step (op : Op) (world : World) : World :=
  match op with
  | .add name webhookUrl keyword websocketChatId chatId => add platform env name webhookUrl keyword websocketChatId chatId world
  | .addManaged name websocketChatId keyword => addManaged platform name websocketChatId keyword world
  | .addExisting name websocketChatId => addExisting platform name websocketChatId world
  | .remove chatId inUse => remove platform env chatId inUse world
  | .load => world.withCall .loading
  | .bot n answer newId =>
      match world.calls[n]? with
      | some (.ensuring chatName wsId word) =>
          answer.elim (world.endCall n) (fun bot => withBot platform (.ensuring chatName wsId word) bot newId (world.endCall n))
      | some (.adopting chatName wsId) =>
          answer.elim (world.endCall n) (fun bot => withBot platform (.adopting chatName wsId) bot newId (world.endCall n))
      | _ => world
  | .tested n ok newId =>
      match world.calls[n]? with
      | some (.testing chatId target) =>
          if ok then { world with calls := world.calls.set n (.saving (if chatId = "" then newId else chatId) target) }
          else world.endCall n
      | _ => world
  | .botRemoved n =>
      match world.calls[n]? with
      | some (.removingBot chatId) => { world with calls := world.calls.set n (.deleting chatId) }
      | _ => world
  | .ledger n ok =>
      match world.calls[n]? with
      | some (.saving chatId target) => if ok then atLedger n (.saving chatId target) world else world.endCall n
      | some (.deleting chatId) => if ok then atLedger n (.deleting chatId) world else world.endCall n
      | some .loading => if ok then atLedger n .loading world else world.endCall n
      | _ => world
  | .reply n =>
      match world.calls[n]? with
      | some call => atReply env n call world
      | none => world

/-- The process after the `load` of its start. -/
def started (keywords : List (String × String)) (rows : List (String × Target)) : World where
  rows := rows
  maps := rows.foldl (loadRow (envIds env)) ⟨env, keywords, [], []⟩

end Calls

end TradingHarness.Webhooks
