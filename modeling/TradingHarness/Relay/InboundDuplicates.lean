import TradingHarness.Relay.Inbound

set_option autoImplicit false

/-! # Inbound duplicates

A duplicate leaves the table as it was unless the row of the message was reopened before the copy of the message
was found: the reopened row then waits for a retry, and its targets are forgotten. -/

namespace TradingHarness

section Duplicates

variable {μ : Type}

/-! ## Rows that wait -/

/-- A row of the message is due for a retry at some time. -/
def WaitsForRetry (messageId : List Char) (table : RelayTable μ) : Prop :=
  ∃ now, ∃ row ∈ dueForRetry now [] table, row.sourceMessageId = messageId

theorem getRelayMessage_of_mem {row : RelayRow μ} {table : RelayTable μ} (h : row ∈ table.rows) :
    getRelayMessage row.sourceMessageId table = some row := Keyed.find_of_mem table.nodup h

theorem waitsForRetry_iff {messageId : List Char} {table : RelayTable μ} :
    WaitsForRetry messageId table ↔
      ∃ row, getRelayMessage messageId table = some row ∧ row.status = .failed ∧ row.sourceDeleted = false := by
  constructor
  · rintro ⟨now, row, hrow, rfl⟩
    obtain ⟨hmem, hdue⟩ := List.mem_filter.mp hrow
    refine ⟨row, getRelayMessage_of_mem hmem, ?_⟩
    simp [retryElapsed] at hdue
    exact ⟨hdue.1.1, hdue.2⟩
  · rintro ⟨row, hrow, hfailed, hkept⟩
    obtain ⟨hmem, hid⟩ := Keyed.mem_of_find hrow
    refine ⟨row.updatedAt + retryWait row.attemptCount, row, List.mem_filter.mpr ⟨hmem, ?_⟩, hid⟩
    simp [retryElapsed, hfailed, hkept]

/-! ## Reopening a row -/

theorem getRelayMessage_change (messageId : List Char) {change : RelayRow μ → RelayRow μ}
    (hkey : ∀ row, (change row).sourceMessageId = row.sourceMessageId) (table : RelayTable μ) :
    getRelayMessage messageId (table.change messageId change hkey)
      = (getRelayMessage messageId table).map change := Keyed.find_update_self change hkey

theorem isSent_of_row {messageId : List Char} {row : RelayRow μ} {table : RelayTable μ}
    (hrow : getRelayMessage messageId table = some row) (hsent : row.status = .sent) :
    isSent messageId table = true := by
  simp [isSent, hrow, hsent]

theorem change_ne {messageId : List Char} {row : RelayRow μ} {change : RelayRow μ → RelayRow μ}
    {table : RelayTable μ} (hkey : ∀ row, (change row).sourceMessageId = row.sourceMessageId)
    (hrow : getRelayMessage messageId table = some row) (hstatus : (change row).status ≠ row.status) :
    table.change messageId change hkey ≠ table := by
  intro hsame
  have hchanged := getRelayMessage_change messageId hkey table
  rw [hsame, hrow, Option.map_some, Option.some.injEq] at hchanged
  exact hstatus (congrArg RelayRow.status hchanged.symm)

variable {φ : Type} [DecidableEq φ] (rules : ContentRules μ φ)

/-- The row of the message is reopened: it holds a placeholder, or other content. -/
def reopensRow (message : SourceMessage μ) (replacePlaceholder correction : Bool) (table : RelayTable μ) : Bool :=
  let existing := getRelayMessage message.messageId table
  replacesPlaceholder rules replacePlaceholder existing
    || correctsExisting rules replacePlaceholder correction existing message

variable {rules}

theorem sent_of_reopensRow {message : SourceMessage μ} {replacePlaceholder correction : Bool}
    {table : RelayTable μ} (h : reopensRow rules message replacePlaceholder correction table = true) :
    ∃ row, getRelayMessage message.messageId table = some row ∧ row.status = .sent := by
  unfold reopensRow at h
  rcases hrow : getRelayMessage message.messageId table with _ | row
  · simp [hrow, replacesPlaceholder, correctsExisting] at h
  · refine ⟨row, rfl, ?_⟩
    rw [hrow, Bool.or_eq_true] at h
    rcases h with hreplaces | hcorrects
    · simp [replacesPlaceholder] at hreplaces
      exact hreplaces.2.1
    · simp [correctsExisting] at hcorrects
      exact hcorrects.2.1

/-- A row that is reopened is changed at its own key, and is failed from then on. -/
theorem reopen_reopens (now : ℤ) {message : SourceMessage μ} {replacePlaceholder correction : Bool}
    {table : RelayTable μ} (h : reopensRow rules message replacePlaceholder correction table = true) :
    ∃ (change : RelayRow μ → RelayRow μ) (hkey : ∀ row, (change row).sourceMessageId = row.sourceMessageId),
      (∀ row, (change row).status = .failed ∧ (change row).sourceKey = row.sourceKey
        ∧ (change row).sourceCreateTime = row.sourceCreateTime)
      ∧ reopen rules now message replacePlaceholder correction table
        = .goesOn (table.change message.messageId change hkey) := by
  obtain ⟨row, hrow, hsent⟩ := sent_of_reopensRow h
  have hisSent := isSent_of_row hrow hsent
  unfold reopensRow at h
  rcases hreplaces :
    replacesPlaceholder rules replacePlaceholder (getRelayMessage message.messageId table) with _ | _
  · -- no placeholder is replaced, so the content is corrected
    have hcorrects : correctsExisting rules replacePlaceholder correction
        (getRelayMessage message.messageId table) message = true := by simpa [hreplaces] using h
    refine ⟨correctRow now message "LarkAgentX 历史重读更正内容".toList, fun _ => rfl, fun _ => ⟨rfl, rfl, rfl⟩, ?_⟩
    simp [reopen, hreplaces, hcorrects, correctRelayMessage, hisSent]
  · refine ⟨resetRow now "LarkAgentX 历史卡片回放替换占位内容".toList, fun _ => rfl, fun _ => ⟨rfl, rfl, rfl⟩, ?_⟩
    simp [reopen, hreplaces, resetRelayMessageForRetry, hisSent]

theorem reopen_leaves {now : ℤ} {message : SourceMessage μ} {replacePlaceholder correction : Bool}
    {table : RelayTable μ} (h : reopensRow rules message replacePlaceholder correction table = false) :
    reopen rules now message replacePlaceholder correction table
      = if (getRelayMessage message.messageId table).any (fun row => isSettled row.status) then .duplicate table
        else .goesOn table := by
  unfold reopensRow at h
  rw [Bool.or_eq_false_iff] at h
  simp only [reopen, h.1, h.2]
  simp

/-! ## The copy of a message -/

theorem rows_change {messageId : List Char} {change : RelayRow μ → RelayRow μ}
    (hkey : ∀ row, (change row).sourceMessageId = row.sourceMessageId) (table : RelayTable μ) :
    (table.change messageId change hkey).rows
      = Keyed.update RelayRow.sourceMessageId messageId change table.rows := rfl

/-- A change of the row of the message does not touch the search for a copy, which passes that row over. -/
theorem equivalentRow_change (rules : ContentRules μ φ) (record : RelayRecord μ) {change : RelayRow μ → RelayRow μ}
    (table : RelayTable μ) (hkey : ∀ row, (change row).sourceMessageId = row.sourceMessageId)
    (hplace : ∀ row, (change row).sourceKey = row.sourceKey
      ∧ (change row).sourceCreateTime = row.sourceCreateTime) :
    (equivalentRow rules record (table.change record.sourceMessageId change hkey)).isSome
      = (equivalentRow rules record table).isSome := by
  have hwindow : ∀ first last, relayMessagesBySourceWindow record.sourceKey first last
      (table.change record.sourceMessageId change hkey)
      = (relayMessagesBySourceWindow record.sourceKey first last table).map
        (fun row => if row.sourceMessageId = record.sourceMessageId then change row else row) := by
    intro first last
    have hkept : ∀ row : RelayRow μ, (if row.sourceMessageId = record.sourceMessageId then change row else row).sourceKey
        = row.sourceKey
        ∧ (if row.sourceMessageId = record.sourceMessageId then change row else row).sourceCreateTime
        = row.sourceCreateTime := by
      intro row
      split
      · exact hplace row
      · exact ⟨rfl, rfl⟩
    simp only [relayMessagesBySourceWindow, rows_change, Keyed.update]
    rw [List.filter_map, List.map_take, List.map_insertionSort
      (fun one other : RelayRow μ => one.sourceCreateTime ≤ other.sourceCreateTime)
      (fun one other : RelayRow μ => one.sourceCreateTime ≤ other.sourceCreateTime)]
    · congr 4
      funext row
      simp only [Function.comp_apply, hkept]
    · intro one _ other _
      simp only [hkept]
  unfold equivalentRow
  rw [hwindow, List.find?_map, Option.isSome_map]
  congr 2
  funext row
  rw [Function.comp_apply]
  by_cases hid : row.sourceMessageId = record.sourceMessageId
  · rw [if_pos hid, hkey]
    simp [hid]
  · rw [if_neg hid]

/-! ## When a call answers a duplicate -/

variable (rules)

/-- A message that passes the checks and the filters of a call. -/
structure Accepted (message : SourceMessage μ) (source : RelaySource) (chatId : List Char) : Prop where
  hasId : message.messageId ≠ []
  hasKey : source.key ≠ []
  resolved : source.resolvedChatId = some chatId
  hasChat : chatId ≠ []
  noLoop : chatId ∉ source.targetChatIds
  notSystem : rules.isSystem message.content = false
  notBlocked : rules.blocked source message.content = none

variable {rules}

theorem relayInbound_duplicate {relayOne : RelayRow μ → Delivery} {now : ℤ} {record : RelayRecord μ}
    {table table' : RelayTable μ} :
    relayInbound rules relayOne now record table = (.duplicate, table')
      ↔ (equivalentRow rules record table).isSome = true ∧ table' = table := by
  unfold relayInbound
  rcases equivalentRow rules record table with _ | copy
  · rcases claimRelayMessage now record table with ⟨_ | claimed, claimedTable⟩ <;> simp
  · simp [eq_comm]

/-- A call answers a duplicate where the message is accepted and its row ends the call, or a copy is found behind
    the reopening. -/
theorem processInbound_duplicate {relayOne : RelayRow μ → Delivery} {now : ℤ} {message : SourceMessage μ}
    {source : RelaySource} {replacePlaceholder correction : Bool} {table table' : RelayTable μ} :
    processInbound rules relayOne now message source replacePlaceholder correction table = .ok (.duplicate, table')
      ↔ ∃ chatId, Accepted rules message source chatId
        ∧ (reopen rules now message replacePlaceholder correction table = .duplicate table'
          ∨ reopen rules now message replacePlaceholder correction table = .goesOn table'
            ∧ (equivalentRow rules (inboundRecord now message source chatId) table').isSome = true) := by
  constructor
  · intro h
    unfold processInbound at h
    split at h
    · cases h
    next hid =>
      split at h
      · cases h
      next chatId hresolved =>
        dsimp only at h
        split_ifs at h with hplace hloop hsystem
        · cases h
        · split at h
          · cases h
          next hblocked =>
            push Not at hplace
            have haccepted : Accepted rules message source chatId :=
              ⟨hid, hplace.1, hresolved, hplace.2, by simpa using hloop, by simpa using hsystem, hblocked⟩
            refine ⟨chatId, haccepted, ?_⟩
            split at h
            next hreopen =>
              injection h with h
              injection h with _ h
              exact Or.inl (h ▸ hreopen)
            next reopened hreopen =>
              injection h with h
              obtain ⟨hcopy, hsame⟩ := relayInbound_duplicate.mp h
              exact Or.inr ⟨hsame ▸ hreopen, hsame ▸ hcopy⟩
  · rintro ⟨chatId, haccepted, hends⟩
    have hplace : ¬ (source.key = [] ∨ chatId = []) := by
      rintro (hkey | hchat)
      · exact haccepted.hasKey hkey
      · exact haccepted.hasChat hchat
    unfold processInbound
    rw [if_neg haccepted.hasId]
    simp only [haccepted.resolved, haccepted.notBlocked]
    rw [if_neg hplace, if_neg (by simpa using haccepted.noLoop), if_neg (by simp [haccepted.notSystem])]
    rcases hends with hends | ⟨hends, hcopy⟩
    · rw [hends]
    · rw [hends]
      exact congrArg Except.ok (relayInbound_duplicate.mpr ⟨hcopy, rfl⟩)

/-- A duplicate leaves the ledger as it was. -/
def LedgerUnchanged (rules : ContentRules μ φ) (relayOne : RelayRow μ → Delivery) (now : ℤ)
    (message : SourceMessage μ) (source : RelaySource) (replacePlaceholder correction : Bool)
    (table : RelayTable μ) : Prop :=
  ∀ table', processInbound rules relayOne now message source replacePlaceholder correction table
      = .ok (.duplicate, table') → table' = table

/-- A duplicate does not leave the message in the retry queue. -/
def LeavesQueue (rules : ContentRules μ φ) (relayOne : RelayRow μ → Delivery) (now : ℤ)
    (message : SourceMessage μ) (source : RelaySource) (replacePlaceholder correction : Bool)
    (table : RelayTable μ) : Prop :=
  ∀ table', processInbound rules relayOne now message source replacePlaceholder correction table
      = .ok (.duplicate, table') → ¬ WaitsForRetry message.messageId table'

/-- A copy of an accepted message is in the table. -/
def FindsCopy (rules : ContentRules μ φ) (now : ℤ) (message : SourceMessage μ) (source : RelaySource)
    (table : RelayTable μ) : Prop :=
  ∃ chatId, Accepted rules message source chatId
    ∧ (equivalentRow rules (inboundRecord now message source chatId) table).isSome = true

section Runs

variable {relayOne : RelayRow μ → Delivery} {now : ℤ} {message : SourceMessage μ} {source : RelaySource}
  {replacePlaceholder correction : Bool} {table : RelayTable μ}

theorem duplicate_of_reopens (relayOne : RelayRow μ → Delivery) (hcopy : FindsCopy rules now message source table)
    (hreopens : reopensRow rules message replacePlaceholder correction table = true) :
    ∃ table', processInbound rules relayOne now message source replacePlaceholder correction table
        = .ok (.duplicate, table') ∧ table' ≠ table := by
  obtain ⟨chatId, haccepted, hcopy⟩ := hcopy
  obtain ⟨row, hrow, hsent⟩ := sent_of_reopensRow hreopens
  obtain ⟨change, hkey, hchange, hreopen⟩ := reopen_reopens now hreopens
  have hcopied : (equivalentRow rules (inboundRecord now message source chatId)
      (table.change message.messageId change hkey)).isSome = true := by
    have hsame := equivalentRow_change rules (inboundRecord now message source chatId) table hkey
      (fun row => (hchange row).2)
    exact hsame.trans hcopy
  refine ⟨_, processInbound_duplicate.mpr ⟨chatId, haccepted, Or.inr ⟨hreopen, hcopied⟩⟩, ?_⟩
  refine change_ne hkey hrow ?_
  rw [(hchange row).1, hsent]
  decide

theorem unchanged_of_left
    (hleft : FindsCopy rules now message source table →
      reopensRow rules message replacePlaceholder correction table = false) :
    LedgerUnchanged rules relayOne now message source replacePlaceholder correction table := by
  intro table' hduplicate
  obtain ⟨chatId, haccepted, hends⟩ := processInbound_duplicate.mp hduplicate
  rcases hreopens : reopensRow rules message replacePlaceholder correction table with _ | _
  · rw [reopen_leaves hreopens] at hends
    split at hends
    · rcases hends with hends | ⟨hends, _⟩
      · injection hends with hsame
        exact hsame.symm
      · cases hends
    · rcases hends with hends | ⟨hends, _⟩
      · cases hends
      · injection hends with hsame
        exact hsame.symm
  · -- the row was reopened, so no copy was there, and the reopening does not make one
    obtain ⟨change, hkey, hchange, hreopen⟩ := reopen_reopens now hreopens
    rw [hreopen] at hends
    rcases hends with hends | ⟨hends, hcopy⟩
    · cases hends
    · injection hends with hsame
      rw [← hsame] at hcopy
      have hcopied := equivalentRow_change rules (inboundRecord now message source chatId) table hkey
        (fun row => (hchange row).2)
      rw [hleft ⟨chatId, haccepted, hcopied.symm.trans hcopy⟩] at hreopens
      cases hreopens

theorem ledgerUnchanged_iff :
    LedgerUnchanged rules relayOne now message source replacePlaceholder correction table
      ↔ ¬ (FindsCopy rules now message source table
        ∧ reopensRow rules message replacePlaceholder correction table = true) := by
  constructor
  · rintro hunchanged ⟨hcopy, hreopens⟩
    obtain ⟨table', hduplicate, hchanged⟩ := duplicate_of_reopens relayOne hcopy hreopens
    exact hchanged (hunchanged table' hduplicate)
  · intro hnot
    refine unchanged_of_left (fun hcopy => ?_)
    rw [Bool.eq_false_iff]
    exact fun hreopens => hnot ⟨hcopy, hreopens⟩

theorem duplicate_of_waits (hwaits : WaitsForRetry message.messageId table) {table' : RelayTable μ} :
    processInbound rules relayOne now message source replacePlaceholder correction table = .ok (.duplicate, table')
      ↔ FindsCopy rules now message source table ∧ table' = table := by
  obtain ⟨row, hrow, hfailed, _⟩ := waitsForRetry_iff.mp hwaits
  have hleft : reopensRow rules message replacePlaceholder correction table = false := by
    rw [Bool.eq_false_iff]
    intro hreopens
    obtain ⟨sent, hsentRow, hsent⟩ := sent_of_reopensRow hreopens
    rw [hrow, Option.some.injEq] at hsentRow
    rw [← hsentRow, hfailed] at hsent
    cases hsent
  have hgoes : reopen rules now message replacePlaceholder correction table = .goesOn table := by
    rw [reopen_leaves hleft, if_neg]
    simp [hrow, hfailed, isSettled]
  rw [processInbound_duplicate, hgoes]
  constructor
  · rintro ⟨chatId, haccepted, hends | ⟨hends, hcopy⟩⟩
    · cases hends
    · injection hends with hsame
      rw [← hsame] at hcopy ⊢
      exact ⟨⟨chatId, haccepted, hcopy⟩, rfl⟩
  · rintro ⟨⟨chatId, haccepted, hcopy⟩, rfl⟩
    exact ⟨chatId, haccepted, Or.inr ⟨rfl, hcopy⟩⟩

end Runs

/-- **A duplicate leaves the ledger as it was exactly where no copy of an accepted message is found behind a row
    that was reopened; it leaves the message out of the retry queue as well exactly where the row did not wait
    before either.** -/
theorem duplicate_keeps_ledger_iff (rules : ContentRules μ φ) (relayOne : RelayRow μ → Delivery) (now : ℤ)
    (message : SourceMessage μ) (source : RelaySource) (replacePlaceholder correction : Bool)
    (table : RelayTable μ) :
    (LedgerUnchanged rules relayOne now message source replacePlaceholder correction table
      ↔ ¬ (FindsCopy rules now message source table
        ∧ reopensRow rules message replacePlaceholder correction table = true))
    ∧ (LedgerUnchanged rules relayOne now message source replacePlaceholder correction table
        ∧ LeavesQueue rules relayOne now message source replacePlaceholder correction table
      ↔ ¬ (FindsCopy rules now message source table
        ∧ (reopensRow rules message replacePlaceholder correction table = true
          ∨ WaitsForRetry message.messageId table))) := by
  refine ⟨ledgerUnchanged_iff, ?_⟩
  rw [ledgerUnchanged_iff]
  constructor
  · rintro ⟨hnot, hleaves⟩ ⟨hcopy, hreopens | hwaits⟩
    · exact hnot ⟨hcopy, hreopens⟩
    · exact hleaves table ((duplicate_of_waits hwaits).mpr ⟨hcopy, rfl⟩) hwaits
  · intro hnot
    have hunreopened : ¬ (FindsCopy rules now message source table
        ∧ reopensRow rules message replacePlaceholder correction table = true) :=
      fun hboth => hnot ⟨hboth.1, Or.inl hboth.2⟩
    refine ⟨hunreopened, fun table' hduplicate hwaits => ?_⟩
    have hsame : table' = table := ledgerUnchanged_iff.mpr hunreopened table' hduplicate
    rw [hsame] at hduplicate hwaits
    exact hnot ⟨((duplicate_of_waits hwaits).mp hduplicate).1, Or.inr hwaits⟩

end Duplicates

/-! ## A correction whose copy is there -/

/-- Text messages without repeated blanks, in a relay without keywords: the text is what is compared. -/
def textRules : ContentRules (List Char) (List Char) where
  isSystem := fun _ => false
  blocked := fun _ _ => none
  isPlaceholder := fun _ => false
  fingerprint := fun text => text

def correctedSource : RelaySource where
  key := "anqiang".toList
  resolvedChatId := some "767_source".toList
  targetChatId := "oc_summary".toList
  targetChatIds := ["oc_summary".toList]
  tag := "anqiang".toList

def correctedMessage : SourceMessage (List Char) where
  messageId := "larkx_link_1".toList
  createTime := some 1789003800000
  updateTime := none
  deleted := false
  content := "链接: https://pan.example.com/s/1".toList

def sentRow (messageId text target : List Char) : RelayRow (List Char) where
  sourceMessageId := messageId
  sourceKey := "anqiang".toList
  sourceChatId := "767_source".toList
  sourceCreateTime := 1789003800000
  targetChatId := "oc_summary".toList
  routeTag := "anqiang".toList
  message := ⟨messageId, some 1789003800000, none, false, text⟩
  status := .sent
  attemptCount := 1
  targetMessageIds := [⟨some "oc_summary".toList, target, some "text".toList⟩]
  sourceUpdateTime := none
  updatedAt := 1789003801000000

/-- The message was sent without its link, and its copy from the other transport with it. -/
def correctedTable : RelayTable (List Char) where
  rows := [sentRow "larkx_link_1".toList "链接:".toList "om_1".toList,
    sentRow "om_source_1".toList "链接: https://pan.example.com/s/1".toList "om_2".toList]
  nodup := by decide +kernel

/-- The correction is answered as a duplicate, and the row has failed and lost its target. -/
theorem corrected_duplicate_changes_row :
    (processInbound textRules (fun _ => .delivered [] []) 1789010000000000 correctedMessage correctedSource false true
        correctedTable).toOption.map (fun result => (result.1,
          (getRelayMessage correctedMessage.messageId result.2).map (fun row => (row.status, row.targetMessageIds))))
      = some (.duplicate, some (.failed, []))
    ∧ ¬ LedgerUnchanged textRules (fun _ => .delivered [] []) 1789010000000000 correctedMessage correctedSource false
      true correctedTable := by
  refine ⟨by decide +kernel, ?_⟩
  rw [ledgerUnchanged_iff, not_not]
  exact ⟨⟨"767_source".toList, ⟨by decide, by decide, rfl, by decide, by decide, rfl, rfl⟩, by decide +kernel⟩,
    by decide +kernel⟩

end TradingHarness
