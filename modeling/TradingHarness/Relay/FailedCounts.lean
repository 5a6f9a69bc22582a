import TradingHarness.Library.Runs
import TradingHarness.Relay.EventSpool

set_option autoImplicit false

/-! # Failed events are counted

Every operation moves the counter of a chat by what it changes in the status of one event, so in every run the
counter is the number of the chat's failed events, and a start has nothing to reconcile. -/

namespace TradingHarness

/-! ## The invariant -/

def isFailedOf (chatId : List Char) (event : SpoolEvent) : Bool :=
  event.status == .failed && event.payload.chatId == chatId

/-- The number of the failed events of a chat. -/
def failedOf (events : List SpoolEvent) (chatId : List Char) : ℕ := events.countP (isFailedOf chatId)

structure CountsFailed (spool : EventSpool) : Prop where
  nodup : (spool.events.map SpoolEvent.eventId).Nodup
  named : ∀ row ∈ spool.chatStats, row.chatId ≠ []
  known : ∀ event ∈ spool.events, event.payload.chatId ≠ [] →
    event.payload.chatId ∈ spool.chatStats.map ChatStats.chatId
  counts : ∀ row ∈ spool.chatStats, row.failedCount = failedOf spool.events row.chatId

/-- An event that is queued once more keeps its chat. -/
def KeepsChat (settings : SpoolSettings) (spool : EventSpool) (op : SpoolOp) : Prop :=
  match op with
  | .enqueue eventId payload _ _ =>
    ∀ event, findEvent (settings.strip eventId) spool.events = some event →
      payload.chatId = event.payload.chatId
  | _ => True

variable {spool : EventSpool}

theorem countsFailed_empty : CountsFailed {} := by
  refine ⟨List.nodup_nil, ?_, ?_, ?_⟩
  · exact fun row hrow => absurd hrow List.not_mem_nil
  · exact fun event hevent => absurd hevent List.not_mem_nil
  · exact fun row hrow => absurd hrow List.not_mem_nil

/-! ## One event changes -/

/-- An update of one event whose chat's counter moves with its status. -/
theorem countsFailed_update (h : CountsFailed spool) {eventId : List Char} {event : SpoolEvent}
    (hfind : findEvent eventId spool.events = some event) {change : SpoolEvent → SpoolEvent}
    (hid : ∀ event, (change event).eventId = event.eventId)
    (hchat : (change event).payload.chatId = event.payload.chatId) {rows : List ChatStats} (cursor : ℕ)
    (hchats : rows.map ChatStats.chatId = spool.chatStats.map ChatStats.chatId)
    (hrows : ∀ row ∈ rows, ∃ old ∈ spool.chatStats, row.chatId = old.chatId ∧
      (old.failedCount = failedOf spool.events old.chatId →
        row.failedCount + (isFailedOf old.chatId event).toNat
          = old.failedCount + (isFailedOf old.chatId (change event)).toNat)) :
    CountsFailed { events := updateEvent eventId change spool.events, chatStats := rows, cursor := cursor } := by
  have hids : (updateEvent eventId change spool.events).map SpoolEvent.eventId
      = spool.events.map SpoolEvent.eventId :=
    Keyed.map_update change _ (fun other _ _ => hid other)
  refine ⟨by rw [hids]; exact h.nodup, ?_, ?_, ?_⟩
  · intro row hrow
    obtain ⟨old, hold, hsame, -⟩ := hrows row hrow
    rw [hsame]
    exact h.named old hold
  · intro other hother hne
    rw [hchats]
    rcases Keyed.mem_update.mp hother with ⟨old, hold, hkey, rfl⟩ | ⟨hold, -⟩
    · have heq : old = event := by
        have hfound := Keyed.find_of_mem h.nodup hold
        rw [hkey] at hfound
        exact Option.some.inj (hfound.symm.trans hfind)
      rw [heq, hchat] at hne ⊢
      exact h.known event (Keyed.mem_of_find hfind).1 hne
    · exact h.known other hold hne
  · intro row hrow
    obtain ⟨old, hold, hsame, hmoves⟩ := hrows row hrow
    have hcount := Keyed.countP_update change (isFailedOf old.chatId) h.nodup hfind
    have hmoved := hmoves (h.counts old hold)
    rw [h.counts old hold] at hmoved
    rw [hsame]
    change row.failedCount = (Keyed.update SpoolEvent.eventId eventId change spool.events).countP
      (isFailedOf old.chatId)
    unfold failedOf at hmoved
    omega

theorem failedOf_pos {events : List SpoolEvent} {event : SpoolEvent} {chatId : List Char}
    (hmem : event ∈ events) (hfailed : isFailedOf chatId event = true) : 0 < failedOf events chatId :=
  List.countP_pos_iff.mpr ⟨event, hmem, hfailed⟩

theorem mem_updateChat {chatId : List Char} {change : ChatStats → ChatStats} {rows : List ChatStats}
    (hnamed : ∀ row ∈ rows, row.chatId ≠ []) {row : ChatStats} (h : row ∈ updateChat chatId change rows) :
    ∃ old ∈ rows, row = if old.chatId = chatId then change old else old := by
  unfold updateChat at h
  by_cases hempty : chatId = []
  · rw [if_pos hempty] at h
    refine ⟨row, h, ?_⟩
    rw [if_neg (by rw [hempty]; exact hnamed row h)]
  · rw [if_neg hempty] at h
    obtain ⟨old, hold, rfl⟩ := List.mem_map.mp h
    exact ⟨old, hold, rfl⟩

variable (now : ℤ) (payload : SpoolPayload) (rows : List ChatStats) (chatId : List Char)

theorem chats_updateChat (change : ChatStats → ChatStats) (rows : List ChatStats)
    (hchange : ∀ row, (change row).chatId = row.chatId) :
    (updateChat chatId change rows).map ChatStats.chatId = rows.map ChatStats.chatId := by
  unfold updateChat
  split
  · rfl
  · exact Keyed.map_update change _ (fun row _ _ => hchange row)

section

variable (h : CountsFailed spool)

include h

/-- An event's status changes and its chat's counter moves by it. -/
theorem countsFailed_status {eventId : List Char} {event : SpoolEvent}
    (hfind : findEvent eventId spool.events = some event) (change : SpoolEvent → SpoolEvent)
    (hid : ∀ event, (change event).eventId = event.eventId)
    (hchat : (change event).payload.chatId = event.payload.chatId) (cursor : ℕ)
    (count : ChatStats → ChatStats) (hcount : ∀ row, (count row).chatId = row.chatId)
    (hmoves : ∀ row, (event.status = .failed → 0 < row.failedCount) →
      (count row).failedCount + (event.status == .failed).toNat
        = row.failedCount + ((change event).status == .failed).toNat) :
    CountsFailed {
      events := updateEvent eventId change spool.events
      chatStats := updateChat event.payload.chatId count spool.chatStats
      cursor := cursor } := by
  refine countsFailed_update h hfind hid hchat cursor (chats_updateChat _ _ _ hcount) ?_
  intro row hrow
  obtain ⟨old, hold, rfl⟩ := mem_updateChat h.named hrow
  refine ⟨old, hold, ?_, fun hexact => ?_⟩
  · split
    · exact hcount old
    · rfl
  · unfold isFailedOf
    rw [hchat]
    by_cases hsame : old.chatId = event.payload.chatId
    · rw [if_pos hsame, hsame, beq_self_eq_true, Bool.and_true, Bool.and_true]
      refine hmoves old (fun hfailed => ?_)
      rw [hexact]
      refine failedOf_pos (Keyed.mem_of_find hfind).1 ?_
      unfold isFailedOf
      rw [hfailed, hsame, beq_self_eq_true, beq_self_eq_true, Bool.and_self]
    · have hother : (event.payload.chatId == old.chatId) = false :=
        beq_eq_false_iff_ne.mpr (fun heq => hsame heq.symm)
      rw [if_neg hsame, hother, Bool.and_false, Bool.and_false]

/-- An event changes without its status becoming or ceasing to be failed. -/
theorem countsFailed_same {eventId : List Char} {event : SpoolEvent}
    (hfind : findEvent eventId spool.events = some event) (change : SpoolEvent → SpoolEvent)
    (hid : ∀ event, (change event).eventId = event.eventId)
    (hchat : (change event).payload.chatId = event.payload.chatId) (cursor : ℕ)
    (hstatus : (change event).status = .failed ↔ event.status = .failed) :
    CountsFailed {
      events := updateEvent eventId change spool.events
      chatStats := spool.chatStats
      cursor := cursor } := by
  refine countsFailed_update h hfind hid hchat cursor rfl (fun row hrow => ⟨row, hrow, rfl, fun _ => ?_⟩)
  unfold isFailedOf
  rw [hchat, show ((change event).status == EventStatus.failed) = (event.status == EventStatus.failed) by
    rw [Bool.eq_iff_iff, beq_iff_eq, beq_iff_eq, hstatus]]

theorem CountsFailed.advance : CountsFailed (advanceCursor spool) :=
  ⟨h.nodup, h.named, h.known, h.counts⟩

/-! ## The operations -/

theorem countsFailed_claim (now leaseSeconds : ℤ) (eventId : List Char) :
    CountsFailed (kept spool (claim now eventId leaseSeconds spool)) := by
  unfold claim
  rcases hfind : findEvent eventId spool.events with _ | event
  · exact h
  · dsimp only
    by_cases hdelivered : event.status = .delivered
    · rw [if_pos hdelivered]
      exact h
    rw [if_neg hdelivered]
    by_cases hflight : inFlight now event
    · rw [if_pos hflight]
      exact h
    rw [if_neg hflight]
    by_cases hfailed : event.status = .failed
    · rw [if_pos hfailed]
      refine countsFailed_status h hfind (claimEvent now leaseSeconds) (fun _ => rfl) rfl spool.cursor oneFailureLess
        (fun _ => rfl) ?_
      intro row hpos
      have hrow := hpos hfailed
      rw [hfailed]
      change row.failedCount - 1 + 1 = row.failedCount + 0
      omega
    · rw [if_neg hfailed]
      refine countsFailed_same h hfind (claimEvent now leaseSeconds) (fun _ => rfl) rfl spool.cursor ?_
      have hclaimed : (claimEvent now leaseSeconds event).status = .processing := rfl
      rw [hclaimed]
      exact ⟨fun heq => absurd heq (by decide), fun heq => absurd heq hfailed⟩

theorem countsFailed_markDelivered (now : ℤ) (eventId : List Char) :
    CountsFailed (markDelivered now eventId spool) := by
  unfold markDelivered
  refine CountsFailed.advance ?_
  rcases hfind : findEvent eventId spool.events with _ | event
  · have hsame : updateEvent eventId (deliverEvent now) spool.events = spool.events :=
      Keyed.update_of_find_none _ hfind
    rw [hsame]
    exact h
  · dsimp only
    by_cases hdelivered : event.status = .delivered
    · rw [if_pos hdelivered]
      refine countsFailed_same h hfind (deliverEvent now) (fun _ => rfl) rfl spool.cursor ?_
      rw [hdelivered]
      rfl
    · rw [if_neg hdelivered]
      refine countsFailed_status h hfind (deliverEvent now) (fun _ => rfl) rfl spool.cursor (forwardChat now event.status)
        (fun _ => rfl) ?_
      intro row hpos
      change row.failedCount - (if event.status = .failed then 1 else 0) + (event.status == .failed).toNat
        = row.failedCount + 0
      by_cases hfailed : event.status = .failed
      · have hrow := hpos hfailed
        rw [if_pos hfailed, hfailed]
        change row.failedCount - 1 + 1 = row.failedCount + 0
        omega
      · rw [if_neg hfailed, beq_eq_false_iff_ne.mpr hfailed]
        rfl

theorem countsFailed_markFailed (now retryAfter : ℤ) (eventId error : List Char) :
    CountsFailed (markFailed now eventId error retryAfter spool) := by
  unfold markFailed
  rcases hfind : findEvent eventId spool.events with _ | event
  · have hsame : updateEvent eventId (failEvent now error retryAfter) spool.events = spool.events :=
      Keyed.update_of_find_none _ hfind
    dsimp only
    rw [hsame]
    exact h
  · dsimp only
    by_cases hfailed : event.status = .failed
    · rw [if_pos hfailed]
      refine countsFailed_same h hfind (failEvent now error retryAfter) (fun _ => rfl) rfl spool.cursor ?_
      rw [hfailed]
      rfl
    · rw [if_neg hfailed]
      refine countsFailed_status h hfind (failEvent now error retryAfter) (fun _ => rfl) rfl spool.cursor oneFailureMore
        (fun _ => rfl) ?_
      intro row _
      rw [beq_eq_false_iff_ne.mpr hfailed]
      rfl

end

variable (settings : SpoolSettings) (ops : List (ℤ × SpoolOp))

theorem countsFailed_markIgnored (h : CountsFailed spool) (now : ℤ)
    (eventId reason : List Char) : CountsFailed (markIgnored settings now eventId reason spool).2 := by
  unfold markIgnored
  dsimp only
  rcases hfind : findEvent (settings.strip eventId) spool.events with _ | event
  · exact h
  · dsimp only
    by_cases hskip : event.status = .delivered ∨ event.payload.chatId = []
    · rw [if_pos hskip]
      exact h
    rw [if_neg hskip]
    refine CountsFailed.advance ?_
    by_cases hfailed : event.status = .failed
    · rw [if_pos hfailed]
      refine countsFailed_status h hfind (ignoreEvent now reason) (fun _ => rfl) rfl spool.cursor oneFailureLess
        (fun _ => rfl) ?_
      intro row hpos
      have hrow := hpos hfailed
      rw [hfailed]
      change row.failedCount - 1 + 1 = row.failedCount + 0
      omega
    · rw [if_neg hfailed]
      refine countsFailed_same h hfind (ignoreEvent now reason) (fun _ => rfl) rfl spool.cursor ?_
      have hignored : (ignoreEvent now reason event).status = .delivered := rfl
      rw [hignored]
      exact ⟨fun heq => absurd heq (by decide), fun heq => absurd heq hfailed⟩

/-! ## Enqueuing -/

theorem refreshEvent_chatId {payload : SpoolPayload} {event : SpoolEvent}
    (h : payload.chatId = event.payload.chatId) :
    (refreshEvent now payload event).payload.chatId = event.payload.chatId := by
  unfold refreshEvent
  split
  · exact h
  · rfl

theorem reopenEvent_chatId {payload : SpoolPayload} {event : SpoolEvent}
    (h : payload.chatId = event.payload.chatId) :
    (reopenEvent now payload event).payload.chatId = event.payload.chatId := by
  unfold reopenEvent
  split
  · exact h
  · rfl

theorem reopenEvent_failed (event : SpoolEvent) :
    (reopenEvent now payload event).status = .failed ↔ event.status = .failed := by
  unfold reopenEvent
  split
  next hdelivered =>
    rw [hdelivered]
    exact ⟨fun h => absurd h (by simp), fun h => absurd h (by simp)⟩
  next => exact Iff.rfl

theorem chats_recordObserved (h : chatId ∈ rows.map ChatStats.chatId) :
    chatId ∈ (recordObserved now payload rows).map ChatStats.chatId := by
  unfold recordObserved
  split
  · exact h
  split
  · rw [Keyed.map_update (observeChat now payload) ChatStats.chatId (fun _ _ _ => rfl)]
    exact h
  · rw [List.map_append]
    exact List.mem_append_left _ h

theorem chat_recordObserved (h : payload.chatId ≠ []) :
    payload.chatId ∈ (recordObserved now payload rows).map ChatStats.chatId := by
  unfold recordObserved
  rw [if_neg h]
  split
  next hfound =>
    obtain ⟨row, hrow⟩ := Option.isSome_iff_exists.mp hfound
    obtain ⟨hmem, hchat⟩ := Keyed.mem_of_find hrow
    rw [Keyed.map_update (observeChat now payload) ChatStats.chatId (fun _ _ _ => rfl)]
    exact List.mem_map.mpr ⟨row, hmem, hchat⟩
  next =>
    rw [List.map_append]
    exact List.mem_append_right _ List.mem_cons_self

theorem mem_recordObserved {row : ChatStats}
    (h : row ∈ recordObserved now payload rows) :
    (∃ old ∈ rows, row.chatId = old.chatId ∧ row.failedCount = old.failedCount) ∨
      (row.chatId = payload.chatId ∧ payload.chatId ≠ [] ∧ payload.chatId ∉ rows.map ChatStats.chatId ∧
        row.failedCount = 0) := by
  unfold recordObserved at h
  split at h
  · exact Or.inl ⟨row, h, rfl, rfl⟩
  next hne =>
    split at h
    · obtain ⟨old, hold, rfl⟩ := List.mem_map.mp h
      refine Or.inl ⟨old, hold, ?_, ?_⟩ <;> split <;> rfl
    next hfound =>
      rcases List.mem_append.mp h with hold | hnew
      · exact Or.inl ⟨row, hold, rfl, rfl⟩
      · rw [List.mem_singleton.mp hnew]
        refine Or.inr ⟨rfl, hne, ?_, rfl⟩
        rw [← Keyed.find_eq_none]
        simpa using hfound

variable (events : List SpoolEvent) (counts : List (List Char × ℕ))

theorem failedOf_concat (event : SpoolEvent) (chatId : List Char)
    (h : event.status ≠ .failed) : failedOf (events ++ [event]) chatId = failedOf events chatId := by
  unfold failedOf isFailedOf
  rw [List.countP_append, List.countP_singleton, beq_eq_false_iff_ne.mpr h]
  rfl

section

variable (h : CountsFailed spool)

include h

theorem countsFailed_insert (now : ℤ) (eventId : List Char)
    (payload : SpoolPayload) (sequence : ℕ) (hfresh : findEvent eventId spool.events = none) :
    CountsFailed { spool with
      events := spool.events ++ [newEvent now eventId payload sequence]
      chatStats := recordObserved now payload spool.chatStats } := by
  have hcount := failedOf_concat spool.events (newEvent now eventId payload sequence)
  refine ⟨?_, ?_, ?_, ?_⟩
  · exact nodup_ids_concat h.nodup hfresh
  · intro row hrow
    rcases mem_recordObserved now payload spool.chatStats hrow with ⟨old, hold, hchat, -⟩ | ⟨hchat, hne, -, -⟩
    · rw [hchat]
      exact h.named old hold
    · rw [hchat]
      exact hne
  · intro event hevent hne
    rcases List.mem_append.mp hevent with hold | hnew
    · exact chats_recordObserved now payload spool.chatStats _ (h.known event hold hne)
    · rw [List.mem_singleton.mp hnew] at hne ⊢
      exact chat_recordObserved now payload spool.chatStats hne
  · intro row hrow
    change row.failedCount = failedOf (spool.events ++ [newEvent now eventId payload sequence]) row.chatId
    rw [hcount row.chatId (by simp [newEvent])]
    rcases mem_recordObserved now payload spool.chatStats hrow with
      ⟨old, hold, hchat, hfailed⟩ | ⟨hchat, hne, hunknown, hzero⟩
    · rw [hchat, hfailed]
      exact h.counts old hold
    · -- a chat without a row has no events yet
      rw [hzero, hchat]
      refine (List.countP_eq_zero.mpr (fun event hevent hfailed => ?_)).symm
      unfold isFailedOf at hfailed
      rw [Bool.and_eq_true, beq_iff_eq, beq_iff_eq] at hfailed
      rw [← hfailed.2] at hne hunknown
      exact hunknown (h.known event hevent hne)

theorem countsFailed_enqueue (now : ℤ)
    (eventId : List Char) (payload : SpoolPayload) (refresh reopen : Bool)
    (hkeeps : KeepsChat settings spool (.enqueue eventId payload refresh reopen)) :
    CountsFailed (kept spool (enqueue settings now eventId payload refresh reopen spool)) := by
  unfold enqueue
  dsimp only
  split
  · exact h
  split
  · exact h
  rcases hfind : findEvent (settings.strip eventId) spool.events with _ | event
  · exact countsFailed_insert h now _ payload _ hfind
  have hchat := hkeeps event hfind
  rw [if_neg (by simp)]
  by_cases hrefresh : refresh = true
  · rw [if_pos hrefresh]
    have hrefreshed := countsFailed_same h hfind (refreshEvent now payload) (refreshEvent_eventId payload)
      (refreshEvent_chatId now hchat) spool.cursor (by rw [refreshEvent_status])
    by_cases hreopen : reopen = true
    · rw [if_pos hreopen]
      have hfound : findEvent (settings.strip eventId)
          (updateEvent (settings.strip eventId) (refreshEvent now payload) spool.events)
          = some (refreshEvent now payload event) := by
        rw [findEvent_update _ (refreshEvent_eventId payload), if_pos rfl, hfind]
        rfl
      refine countsFailed_same hrefreshed hfound (reopenEvent now payload) (reopenEvent_eventId payload)
        (reopenEvent_chatId now ?_) spool.cursor (reopenEvent_failed now payload _)
      rw [refreshEvent_chatId now hchat]
      exact hchat
    · rw [if_neg hreopen]
      exact hrefreshed
  · rw [if_neg hrefresh]
    exact h

theorem countsFailed_step (now : ℤ) (op : SpoolOp)
    (hkeeps : KeepsChat settings spool op) : CountsFailed (applyOp settings now op spool) := by
  cases op with
  | enqueue eventId payload refresh reopen =>
      exact countsFailed_enqueue settings h now eventId payload refresh reopen hkeeps
  | claim eventId leaseSeconds => exact countsFailed_claim h now leaseSeconds eventId
  | markDelivered eventId => exact countsFailed_markDelivered h now eventId
  | markFailed eventId error retryAfter => exact countsFailed_markFailed h now retryAfter eventId error
  | markIgnored eventId reason => exact countsFailed_markIgnored settings h now eventId reason
  | advanceCursor => exact h.advance

end

theorem countsFailed_run (hkeeps : Runs.InTurn (fun before op => KeepsChat settings (spoolAfter settings before) op.2) ops) :
    CountsFailed (spoolAfter settings ops) := by
  induction ops using List.reverseRecOn with
  | nil => exact countsFailed_empty
  | append_singleton ops op ih =>
      rw [Runs.inTurn_concat] at hkeeps
      rw [spoolAfter_concat]
      exact countsFailed_step settings (ih hkeeps.1) op.1 op.2 hkeeps.2

/-! ## The next start -/

theorem lookup_failedCounts_aux (chatId : List Char) :
    ((events.foldl (fun counts event =>
        Dict.set counts event.payload.chatId ((counts.lookup event.payload.chatId).getD 0 + 1))
      counts).lookup chatId).getD 0
      = (counts.lookup chatId).getD 0 + events.countP (fun event => event.payload.chatId == chatId) := by
  induction events generalizing counts with
  | nil => rfl
  | cons event rest ih =>
      rw [List.foldl_cons, ih, Dict.lookup_set, List.countP_cons]
      by_cases hsame : event.payload.chatId = chatId
      · rw [hsame, beq_self_eq_true, if_pos rfl, if_pos rfl, Option.getD_some]
        omega
      · rw [if_neg (by simpa using Ne.symm hsame), if_neg (by simpa using hsame)]
        omega

theorem lookup_failedCounts (chatId : List Char) (hne : chatId ≠ []) :
    ((failedCounts events).lookup chatId).getD 0 = failedOf events chatId := by
  unfold failedCounts
  rw [lookup_failedCounts_aux, List.countP_filter]
  change 0 + _ = _
  rw [Nat.zero_add]
  unfold failedOf
  refine List.countP_congr (fun event _ => ?_)
  unfold isFailedOf
  simp only [Bool.and_eq_true, beq_iff_eq, Bool.not_eq_true', List.isEmpty_eq_false_iff]
  constructor
  · rintro ⟨hchat, hfailed, -⟩
    exact ⟨hfailed, hchat⟩
  · rintro ⟨hfailed, rfl⟩
    exact ⟨rfl, hfailed, hne⟩

theorem nodup_failedCounts : ((failedCounts events).map Prod.fst).Nodup := by
  unfold failedCounts
  generalize events.filter _ = failed
  suffices h : ∀ counts : List (List Char × ℕ), (counts.map Prod.fst).Nodup →
      ((failed.foldl (fun counts event =>
        Dict.set counts event.payload.chatId ((counts.lookup event.payload.chatId).getD 0 + 1))
        counts).map Prod.fst).Nodup from h [] List.nodup_nil
  induction failed with
  | nil => exact fun counts h => h
  | cons event rest ih => exact fun counts h => ih _ (Dict.nodup_keys_set counts _ _ h)

theorem foldl_setFailed (entries : List (List Char × ℕ)) (hnodup : (entries.map Prod.fst).Nodup)
    (rows : List ChatStats) :
    entries.foldl (fun rows entry =>
        Keyed.update ChatStats.chatId entry.1 (fun row => { row with failedCount := entry.2 }) rows) rows
      = rows.map (fun row => { row with failedCount := (entries.lookup row.chatId).getD row.failedCount }) := by
  induction entries generalizing rows with
  | nil => exact (List.map_id rows).symm
  | cons entry rest ih =>
      rw [List.map_cons, List.nodup_cons] at hnodup
      rw [List.foldl_cons, ih hnodup.2]
      unfold Keyed.update
      rw [List.map_map]
      refine List.map_congr_left (fun row _ => ?_)
      rw [Function.comp_apply]
      by_cases hsame : row.chatId = entry.1
      · have hrest : rest.lookup entry.1 = none := (Dict.lookup_eq_none rest entry.1).mpr hnodup.1
        rw [if_pos hsame, hsame, Dict.lookup_cons, if_pos (beq_self_eq_true _), hrest]
        rfl
      · rw [if_neg hsame, Dict.lookup_cons, if_neg (by simpa using hsame)]

theorem reconcile_eq_self (h : CountsFailed spool) : reconcile spool = spool := by
  unfold reconcile
  rw [foldl_setFailed _ (nodup_failedCounts spool.events), List.map_map]
  have hrows : spool.chatStats.map ((fun row : ChatStats =>
      { row with failedCount := ((failedCounts spool.events).lookup row.chatId).getD row.failedCount }) ∘
        (fun row => { row with failedCount := 0 })) = spool.chatStats := by
    refine (List.map_congr_left (fun row hrow => ?_)).trans (List.map_id _)
    have hcount := lookup_failedCounts spool.events row.chatId (h.named row hrow)
    rw [Function.comp_apply]
    change { row with failedCount := ((failedCounts spool.events).lookup row.chatId).getD 0 } = row
    rw [hcount, ← h.counts row hrow]
  rw [hrows]

/-- **In every run of the spool, the counter of every chat is the number of its failed events**, and the next
    start has nothing to reconcile. -/
theorem failed_counts_exact (settings : SpoolSettings) (ops : List (ℤ × SpoolOp))
    (hkeeps : Runs.InTurn (fun before op => KeepsChat settings (spoolAfter settings before) op.2) ops) :
    (∀ row ∈ (spoolAfter settings ops).chatStats,
      row.failedCount = failedOf (spoolAfter settings ops).events row.chatId) ∧
    (∀ event ∈ (spoolAfter settings ops).events, event.payload.chatId ≠ [] →
      event.payload.chatId ∈ (spoolAfter settings ops).chatStats.map ChatStats.chatId) ∧
    reconcile (spoolAfter settings ops) = spoolAfter settings ops := by
  have hcounts := countsFailed_run settings ops hkeeps
  exact ⟨hcounts.counts, hcounts.known, reconcile_eq_self hcounts⟩

/-- An event that fails. -/
def failedOnce : List (ℤ × SpoolOp) :=
  [(0, .enqueue ['e'] (textPayload "a" "one") false false)] ++ [(0, .claim ['e'] 300)]
    ++ [(seconds 1, .markFailed ['e'] "network".toList 30)]

theorem failed_counts_exact_failedOnce :
    reconcile (spoolAfter bridgeSettings failedOnce) = spoolAfter bridgeSettings failedOnce := by
  refine (failed_counts_exact bridgeSettings failedOnce ?_).2.2
  unfold failedOnce
  rw [Runs.inTurn_concat, Runs.inTurn_concat, ← List.nil_append [_], Runs.inTurn_concat]
  refine ⟨⟨⟨Runs.inTurn_nil _, ?_⟩, trivial⟩, trivial⟩
  intro event hfind
  exact absurd hfind (by simp [spoolAfter, findEvent, Keyed.find])

end TradingHarness
