import Mathlib.Data.List.Induction
import Mathlib.Order.Nat
import TradingHarness.Relay.GroupSync

set_option autoImplicit false

/-! # Missed membership checks

A route is archived after misses that were counted. A positive answer for an archived chat clears its count only
where the route is restored in the same refresh: with that, no count runs ahead of the answers. -/

namespace TradingHarness

/-! ## Answers -/

/-- The definite answer of a refresh for a chat that it has asked for. -/
def answerOf (refresh : Refresh) (chatId : List Char) : Option Bool :=
  if ((refresh.bound ++ refresh.archived).map RouteChat.chatId).contains chatId = true then
    (refresh.reports chatId).bind MembershipReport.member
  else none

def countAnswer (count : ℕ) : Option Bool → ℕ
  | some true => 0
  | some false => count + 1
  | none => count

variable (refreshes : List Refresh) (chatId : List Char)

/-- The negative answers since the last positive one, or since the start. -/
def negativesSince : ℕ :=
  refreshes.foldl (fun count refresh => countAnswer count (answerOf refresh chatId)) 0

def latestAnswer : Option Bool :=
  refreshes.foldl (fun last refresh => (answerOf refresh chatId).or last) none

def syncAfter : SyncWorld :=
  refreshes.foldl (fun world refresh => (refreshDirectory refresh world).1) {}

def missesOf (states : ChatStates) (chatId : List Char) : ℕ := (chatState states chatId).missCount

/-- The refresh restores a route for the chat: `restoreRoute` answers with it, and for no earlier chat of the
    route that the account is back in. -/
def RestoresChat (refresh : Refresh) (chatId : List Char) : Prop :=
  ∃ answers, refresh.restoreRoute = some answers ∧ ∃ place item, refresh.archived[place]? = some item ∧
    item.chatId = chatId ∧ answers place = .done ∧
    ∀ earlier other, earlier < place → refresh.archived[earlier]? = some other →
      other.sourceKey = item.sourceKey → isBack refresh other.chatId = true → answers earlier ≠ .done

/-- Every chat that is only archived, that the account is back in and that has misses counted is restored. -/
def RestoresReturned (world : SyncWorld) (refresh : Refresh) : Prop :=
  ∀ chatId, chatId ∈ refresh.archived.map RouteChat.chatId → chatId ∉ refresh.bound.map RouteChat.chatId →
    isBack refresh chatId = true → missesOf world.states chatId ≠ 0 → RestoresChat refresh chatId

/-! ## What a refresh does to the count of a chat -/

variable {refresh : Refresh} {states : ChatStates} {world : SyncWorld} {chatId : List Char}

theorem chatState_save (other : List Char) (patch : ChatState → ChatState) (states : ChatStates) :
    chatState (saveGroupChatState other patch states) chatId
      = if chatId = other then patch (chatState states other) else chatState states chatId := by
  unfold saveGroupChatState chatState
  rw [Dict.lookup_set]
  by_cases hsame : chatId = other
  · rw [if_pos hsame, if_pos (by rw [hsame]; exact beq_self_eq_true other)]
    rfl
  · rw [if_neg hsame, if_neg (by simpa using hsame)]

theorem missesOf_save (other : List Char) (patch : ChatState → ChatState) (states : ChatStates) :
    missesOf (saveGroupChatState other patch states) chatId
      = if chatId = other then (patch (chatState states other)).missCount else missesOf states chatId := by
  unfold missesOf
  rw [chatState_save]
  split <;> rfl

theorem missesOf_recordJoinedGroups (groups : List JoinedGroup) (states : ChatStates) :
    missesOf (recordJoinedGroups groups states) chatId = missesOf states chatId := by
  unfold recordJoinedGroups
  induction groups.filter (fun group => isNumericId group.chatId) generalizing states with
  | nil => rfl
  | cons group rest ih =>
      rw [List.foldl_cons, ih, missesOf_save]
      split
      next hsame => rw [hsame]; rfl
      next => rfl

theorem transition_missCount (previous : ChatState) (report : Option MembershipReport) (now : ℤ) :
    (membershipTransition previous report now).missCount
      = countAnswer previous.missCount (report.bind MembershipReport.member) := by
  unfold membershipTransition
  rcases report.bind MembershipReport.member with _ | _ | _
  · rfl
  · dsimp only
    split <;> rfl
  · rfl

theorem checkedState_missCount (item : RouteChat) (state : ChatState) :
    (checkedState refresh states item state).missCount
      = countAnswer (missesOf states item.chatId) ((refresh.reports item.chatId).bind MembershipReport.member) := by
  refine Eq.trans ?_ (transition_missCount (chatState states item.chatId) (refresh.reports item.chatId) refresh.now)
  unfold checkedState
  dsimp only
  split
  next => rfl
  next => split <;> rfl

theorem missesOf_checkBound (items : List RouteChat) (saved : ChatStates) :
    missesOf (items.foldl (fun saved item =>
        saveGroupChatState item.chatId (checkedState refresh states item) saved) saved) chatId
      = if chatId ∈ items.map RouteChat.chatId
        then countAnswer (missesOf states chatId) ((refresh.reports chatId).bind MembershipReport.member)
        else missesOf saved chatId := by
  induction items generalizing saved with
  | nil => rfl
  | cons item rest ih =>
      rw [List.foldl_cons, ih, List.map_cons]
      by_cases hrest : chatId ∈ rest.map RouteChat.chatId
      · rw [if_pos hrest, if_pos (List.mem_cons_of_mem _ hrest)]
      · rw [if_neg hrest, missesOf_save]
        by_cases hsame : chatId = item.chatId
        · rw [if_pos hsame, if_pos (by rw [hsame]; exact List.mem_cons_self), checkedState_missCount, hsame]
        · rw [if_neg hsame, if_neg (by simp [hsame, hrest])]

theorem missesOf_restoreArchived_le (answers : ℕ → RouteAnswer) (place : ℕ) (items : List RouteChat)
    (restored : List (List Char)) (states : ChatStates) :
    missesOf (restoreArchived refresh answers place items restored states).2 chatId ≤ missesOf states chatId := by
  induction items generalizing place restored states with
  | nil => exact Nat.le_refl _
  | cons item rest ih =>
      unfold restoreArchived
      split
      · refine (ih _ _ _).trans ?_
        rw [missesOf_save]
        split
        · exact Nat.zero_le _
        · exact Nat.le_refl _
      · exact ih _ _ _

/-- The first chat of a route that is restored has its count cleared. -/
theorem missesOf_restoreArchived_zero (answers : ℕ → RouteAnswer) (start : ℕ) (items : List RouteChat)
    (restored : List (List Char)) (states : ChatStates) (place : ℕ) (item : RouteChat)
    (hitem : items[place]? = some item) (hchat : item.chatId = chatId) (hback : isBack refresh chatId = true)
    (hanswer : answers (start + place) = .done) (hfresh : restored.contains item.sourceKey = false)
    (hearlier : ∀ earlier other, earlier < place → items[earlier]? = some other →
      other.sourceKey = item.sourceKey → isBack refresh other.chatId = true → answers (start + earlier) ≠ .done) :
    missesOf (restoreArchived refresh answers start items restored states).2 chatId = 0 := by
  induction items generalizing start restored states place with
  | nil => exact absurd hitem.symm (Option.some_ne_none item)
  | cons first rest ih =>
      unfold restoreArchived
      rcases place with _ | place
      · obtain rfl := Option.some.inj hitem
        rw [if_pos ⟨by rw [hchat]; exact hback, hfresh, hanswer⟩]
        refine Nat.le_zero.mp ((missesOf_restoreArchived_le _ _ _ _ _).trans ?_)
        rw [missesOf_save, if_pos hchat.symm]
        exact Nat.le_refl 0
      · have hshift : ∀ count, start + 1 + count = start + (count + 1) := fun count => by omega
        have hrest : ∀ earlier other, earlier < place → rest[earlier]? = some other →
            other.sourceKey = item.sourceKey → isBack refresh other.chatId = true →
            answers (start + 1 + earlier) ≠ .done := by
          intro earlier other hlt hother
          rw [hshift]
          exact hearlier (earlier + 1) other (by omega) hother
        split
        next hdone =>
          refine ih (start + 1) _ _ place hitem (by rw [hshift]; exact hanswer) ?_ hrest
          rw [List.contains_cons, hfresh, Bool.or_false, beq_eq_false_iff_ne]
          exact fun hsame => hearlier 0 first (by omega) rfl hsame.symm hdone.1 hdone.2.2
        next => exact ih (start + 1) _ _ place hitem (by rw [hshift]; exact hanswer) hfresh hrest

theorem countAnswer_mono {count other : ℕ} (h : count ≤ other) (answer : Option Bool) :
    countAnswer count answer ≤ countAnswer other answer := by
  rcases answer with _ | _ | _
  · exact h
  · exact Nat.succ_le_succ h
  · exact Nat.le_refl 0

theorem missesOf_refreshDirectory_le (refresh : Refresh) (world : SyncWorld) (chatId : List Char) :
    missesOf (refreshDirectory refresh world).1.states chatId
      ≤ missesOf (checkBound refresh (recordJoinedGroups refresh.groups world.states)) chatId :=
  missesOf_restoreArchived_le _ _ _ _ _

theorem missesOf_refresh (hrestores : RestoresReturned world refresh) {count : ℕ}
    (hcount : missesOf world.states chatId ≤ count) :
    missesOf (refreshDirectory refresh world).1.states chatId ≤ countAnswer count (answerOf refresh chatId) := by
  have hle := missesOf_refreshDirectory_le refresh world chatId
  unfold checkBound at hle
  rw [missesOf_checkBound, missesOf_recordJoinedGroups] at hle
  by_cases hbound : chatId ∈ refresh.bound.map RouteChat.chatId
  · have hasked : ((refresh.bound ++ refresh.archived).map RouteChat.chatId).contains chatId = true := by
      rw [List.contains_iff_mem, List.map_append]
      exact List.mem_append_left _ hbound
    rw [if_pos hbound] at hle
    unfold answerOf
    rw [if_pos hasked]
    exact hle.trans (countAnswer_mono hcount _)
  · rw [if_neg hbound] at hle
    by_cases hback : isBack refresh chatId = true ∧ chatId ∈ refresh.archived.map RouteChat.chatId
    · -- the account is back in a chat that is only archived
      refine le_of_eq_of_le ?_ (Nat.zero_le _)
      by_cases hzero : missesOf world.states chatId = 0
      · exact Nat.le_zero.mp (hzero ▸ hle)
      · obtain ⟨answers, hanswers, place, item, hitem, hchat, hdone, hearlier⟩ :=
          hrestores chatId hback.2 hbound hback.1 hzero
        change missesOf (restoreArchived refresh (refresh.restoreRoute.getD (fun _ => .nothing)) 0
          refresh.archived [] _).2 chatId = 0
        rw [hanswers]
        refine missesOf_restoreArchived_zero answers 0 refresh.archived [] _ place item hitem hchat hback.1 ?_
          List.contains_nil ?_
        · rw [Nat.zero_add]
          exact hdone
        · intro earlier other hlt
          rw [Nat.zero_add]
          exact hearlier earlier other hlt
    · have hkeep : ∀ answer, answer ≠ some true → count ≤ countAnswer count answer := by
        rintro (_ | _ | _) hanswer
        · exact Nat.le_refl _
        · exact Nat.le_succ _
        · exact absurd rfl hanswer
      refine hle.trans (hcount.trans (hkeep _ ?_))
      intro hanswer
      unfold answerOf at hanswer
      split at hanswer
      next hasked =>
        rw [List.contains_iff_mem, List.map_append] at hasked
        exact hback ⟨by unfold isBack; rw [hanswer]; rfl, (List.mem_append.mp hasked).resolve_left hbound⟩
      next => exact Option.some_ne_none _ hanswer.symm

/-! ## Runs -/

variable (refreshes : List Refresh) (last : Refresh)

theorem syncAfter_concat :
    syncAfter (refreshes ++ [last]) = (refreshDirectory last (syncAfter refreshes)).1 := by
  unfold syncAfter
  rw [List.foldl_concat]

theorem negativesSince_concat (chatId : List Char) :
    negativesSince (refreshes ++ [last]) chatId
      = countAnswer (negativesSince refreshes chatId) (answerOf last chatId) := by
  unfold negativesSince
  rw [List.foldl_concat]

theorem missesOf_le_negatives (h : Runs.InTurn (fun before refresh => RestoresReturned (syncAfter before) refresh) refreshes)
    (chatId : List Char) : missesOf (syncAfter refreshes).states chatId ≤ negativesSince refreshes chatId := by
  induction refreshes using List.reverseRecOn with
  | nil => exact Nat.le_refl 0
  | append_singleton refreshes last ih =>
      obtain ⟨hbefore, hlast⟩ := (Runs.inTurn_concat _ refreshes last).mp h
      rw [syncAfter_concat, negativesSince_concat]
      exact missesOf_refresh hlast (ih hbefore)

theorem negatives_of_latest (chatId : List Char)
    (h : latestAnswer refreshes chatId = some true) : negativesSince refreshes chatId = 0 := by
  induction refreshes using List.reverseRecOn with
  | nil => exact absurd h.symm (Option.some_ne_none true)
  | append_singleton refreshes last ih =>
      unfold latestAnswer at h
      rw [List.foldl_concat] at h
      rw [negativesSince_concat]
      rcases hanswer : answerOf last chatId with _ | answer
      · rw [hanswer, Option.none_or] at h
        exact ih h
      · rw [hanswer, Option.some_or] at h
        obtain rfl := Option.some.inj h
        rfl

theorem misses_of_archived {call : ArchiveCall} (hcall : call ∈ (refreshDirectory refresh world).2)
    {item : RouteChat} (hitem : item ∈ refresh.bound) (hkey : item.sourceKey = call.sourceKey) :
    archiveAfterMisses ≤ countAnswer (missesOf world.states item.chatId) (answerOf refresh item.chatId) := by
  change call ∈ archiveCalls refresh _ at hcall
  unfold archiveCalls at hcall
  split at hcall
  next =>
    obtain ⟨key, hkeys, rfl⟩ := List.mem_map.mp hcall
    obtain ⟨-, hall⟩ := List.mem_filter.mp hkeys
    have hchecked := List.all_eq_true.mp hall
      (checkedChat refresh (recordJoinedGroups refresh.groups world.states) item)
      (List.mem_filter.mpr ⟨List.mem_map_of_mem hitem, decide_eq_true hkey⟩)
    obtain ⟨-, hmisses⟩ := of_decide_eq_true hchecked
    have hasked : ((refresh.bound ++ refresh.archived).map RouteChat.chatId).contains item.chatId = true :=
      List.contains_iff_mem.mpr (List.mem_map_of_mem (List.mem_append_left _ hitem))
    have hcount := transition_missCount (chatState (recordJoinedGroups refresh.groups world.states) item.chatId)
      (refresh.reports item.chatId) refresh.now
    have hrecorded : (chatState (recordJoinedGroups refresh.groups world.states) item.chatId).missCount
        = missesOf world.states item.chatId := missesOf_recordJoinedGroups refresh.groups world.states
    unfold answerOf
    rw [if_pos hasked, ← hrecorded, ← hcount]
    exact hmisses
  next => exact absurd hcall List.not_mem_nil

/-- **A route is archived only after as many negative answers as it takes, of each of its bound chats**, and a chat
    whose latest definite answer is positive has no misses counted, in every run in which the routes of the archived
    chats that the account is back in are restored. -/
theorem archived_after_misses (refreshes : List Refresh)
    (hrestores : Runs.InTurn (fun before refresh => RestoresReturned (syncAfter before) refresh) refreshes) :
    (∀ before refresh after, refreshes = before ++ refresh :: after →
      ∀ call ∈ (refreshDirectory refresh (syncAfter before)).2, ∀ item ∈ refresh.bound,
        item.sourceKey = call.sourceKey →
          archiveAfterMisses ≤ negativesSince (before ++ [refresh]) item.chatId) ∧
    ∀ before after, refreshes = before ++ after → ∀ chatId, latestAnswer before chatId = some true →
      missesOf (syncAfter before).states chatId = 0 := by
  constructor
  · rintro before refresh after rfl call hcall item hitem hkey
    rw [negativesSince_concat]
    refine (misses_of_archived hcall hitem hkey).trans (countAnswer_mono ?_ _)
    exact missesOf_le_negatives before hrestores.left item.chatId
  · rintro before after rfl chatId hlatest
    have hle := missesOf_le_negatives before hrestores.left chatId
    rw [negatives_of_latest before chatId hlatest] at hle
    exact Nat.le_zero.mp hle

/-! ## A route that is not restored -/

def groupAnswer (member : Bool) : List Char → Option MembershipReport := fun _ => some { member := some member }

/-- A refresh of one route with one chat, bound or archived. -/
def oneChat (bound member : Bool) (restore : RouteAnswer) : Refresh :=
  { now := 0
    bound := if bound then [⟨['1'], ['k'], []⟩] else []
    archived := if bound then [] else [⟨['1'], ['k'], []⟩]
    reports := groupAnswer member
    archiveRoute := some (fun _ => .done)
    restoreRoute := some (fun _ => restore) }

theorem archived_after_misses_restored :
    missesOf (syncAfter [oneChat true false .done, oneChat false true .done]).states ['1'] = 0 := by
  refine (archived_after_misses [oneChat true false .done, oneChat false true .done] ?_).2 _ [] rfl ['1']
    (by decide +kernel)
  refine (Runs.inTurn_concat _ [oneChat true false .done] (oneChat false true .done)).mpr ⟨?_, ?_⟩
  · refine (Runs.inTurn_concat _ [] (oneChat true false .done)).mpr ⟨Runs.inTurn_nil _, ?_⟩
    exact fun chatId harchived => absurd harchived List.not_mem_nil
  · intro chatId harchived _ _ _
    obtain rfl := List.mem_singleton.mp harchived
    refine ⟨_, rfl, 0, ⟨['1'], ['k'], []⟩, rfl, rfl, rfl, ?_⟩
    exact fun earlier other hlt => absurd hlt (Nat.not_lt_zero earlier)

/-- The account is back in the chat of an archived route, but the route is not restored: the count stays, and once
    the route is bound again one negative answer archives it. -/
theorem returned_chat_keeps_misses :
    latestAnswer [oneChat true false .done, oneChat true false .done, oneChat true false .done,
      oneChat false true .throws] ['1'] = some true ∧
    missesOf (syncAfter [oneChat true false .done, oneChat true false .done, oneChat true false .done,
      oneChat false true .throws]).states ['1'] = 3 ∧
    (∃ call ∈ (refreshDirectory (oneChat true false .done) (syncAfter [oneChat true false .done,
        oneChat true false .done, oneChat true false .done, oneChat false true .throws])).2,
      call.sourceKey = ['k']) ∧
    negativesSince [oneChat true false .done, oneChat true false .done, oneChat true false .done,
      oneChat false true .throws, oneChat true false .done] ['1'] = 1 := by
  decide +kernel

end TradingHarness
