import TradingHarness.Library.Runs
import TradingHarness.Relay.EventSpool

set_option autoImplicit false

/-! # The drain cursor

The cursor moves over delivered events in their order. An event behind it is delivered, or a correction has
queued it again; the cursor stays, and the event comes due as any other. -/

namespace TradingHarness

variable (settings : SpoolSettings)

/-! ## Events behind the cursor -/

/-- The operation asks for the event to be queued again. -/
def AsksReopen (eventId : List Char) : SpoolOp → Prop
  | .enqueue other _ refresh reopen => settings.strip other = eventId ∧ refresh = true ∧ reopen = true
  | _ => False

/-- The event was delivered and reopened, and it has not been delivered since. -/
def Reopened (ops : List (ℤ × SpoolOp)) (eventId : List Char) : Prop :=
  ∃ before op after, ops = before ++ op :: after ∧ AsksReopen settings eventId op.2 ∧
    IsDelivered (spoolAfter settings before) eventId ∧
    ∀ since, since <+: after → ¬ IsDelivered (spoolAfter settings (before ++ op :: since)) eventId

/-- No failure is reported for a delivered event. -/
def FailsUndelivered (spool : EventSpool) : SpoolOp → Prop
  | .markFailed eventId _ _ => ¬ IsDelivered spool eventId
  | _ => True

/-- What every operation keeps, with a reason for every event that is not delivered behind the cursor. -/
structure Drained (reopened : List Char → Prop) (spool : EventSpool) : Prop where
  ids : (spool.events.map SpoolEvent.eventId).Nodup
  sequences : (spool.events.map SpoolEvent.sequence).Nodup
  cursor : spool.cursor = 0 ∨ ∃ event ∈ spool.events, event.sequence = spool.cursor
  leased : ∀ event ∈ spool.events, event.status = .processing → event.leaseUntil.isSome = true
  behind : ∀ event ∈ spool.events, event.sequence ≤ spool.cursor →
    event.status = .delivered ∨ reopened event.eventId

variable {settings} {reopened reopened' : List Char → Prop} {spool : EventSpool}

theorem drained_empty : Drained reopened {} := by
  refine ⟨List.nodup_nil, List.nodup_nil, Or.inl rfl, ?_, ?_⟩
  · exact fun event hevent => absurd hevent List.not_mem_nil
  · exact fun event hevent => absurd hevent List.not_mem_nil

theorem Drained.congr (h : Drained reopened spool) {after : EventSpool} (hevents : after.events = spool.events)
    (hcursor : after.cursor = spool.cursor) : Drained reopened after := by
  refine ⟨?_, ?_, ?_, ?_, ?_⟩
  · rw [hevents]
    exact h.ids
  · rw [hevents]
    exact h.sequences
  · rw [hevents, hcursor]
    exact h.cursor
  · rw [hevents]
    exact h.leased
  · rw [hevents, hcursor]
    exact h.behind

theorem Drained.mono (h : Drained reopened spool) (hmono : ∀ eventId, reopened eventId → reopened' eventId) :
    Drained reopened' spool :=
  ⟨h.ids, h.sequences, h.cursor, h.leased, fun event hevent hle =>
    (h.behind event hevent hle).imp_right (hmono event.eventId)⟩

theorem mem_drained (hsequences : (spool.events.map SpoolEvent.sequence).Nodup) {last event : SpoolEvent}
    (hlast : last ∈ drained spool.events spool.cursor) (hevent : event ∈ spool.events)
    (hcursor : spool.cursor < event.sequence) (hle : event.sequence ≤ last.sequence) :
    event ∈ drained spool.events spool.cursor := by
  have hsorted := List.pairwise_insertionSort eventLe
    (spool.events.filter (fun event => spool.cursor < event.sequence))
  have hmem : event ∈ (spool.events.filter (fun event =>
      spool.cursor < event.sequence)).insertionSort eventLe := by
    rw [List.mem_insertionSort, List.mem_filter, decide_eq_true_iff]
    exact ⟨hevent, hcursor⟩
  unfold drained at hlast ⊢
  rw [← List.takeWhile_append_dropWhile (p := fun event : SpoolEvent => event.status == .delivered)
    (l := List.insertionSort eventLe _)] at hsorted hmem
  rcases List.mem_append.mp hmem with htaken | hdropped
  · exact htaken
  · have hge : last.sequence ≤ event.sequence := (List.pairwise_append.mp hsorted).2.2 last hlast event hdropped
    have hlastMem := (List.mem_insertionSort eventLe).mp ((List.takeWhile_sublist _).subset hlast)
    rw [List.inj_on_of_nodup_map hsequences hevent (List.mem_filter.mp hlastMem).1 (by omega)]
    exact hlast

theorem Drained.advance (h : Drained reopened spool) : Drained reopened (advanceCursor spool) := by
  unfold advanceCursor
  rcases hlast : (drained spool.events spool.cursor).getLast? with _ | last
  · exact h
  · have hmem : last ∈ drained spool.events spool.cursor := List.mem_of_getLast? hlast
    have hevents : last ∈ spool.events :=
      (List.mem_filter.mp ((List.mem_insertionSort eventLe).mp ((List.takeWhile_sublist _).subset hmem))).1
    refine ⟨h.ids, h.sequences, Or.inr ⟨last, hevents, rfl⟩, h.leased, ?_⟩
    intro event hevent hle
    by_cases hbehind : event.sequence ≤ spool.cursor
    · exact h.behind event hevent hbehind
    · have hdrained := mem_drained h.sequences hmem hevent (by omega) hle
      unfold drained at hdrained
      have hstatus := List.mem_takeWhile_imp hdrained
      exact Or.inl (by simpa using hstatus)

/-- The step of an operation that changes one event. -/
theorem Drained.update (h : Drained reopened spool) {eventId : List Char} (change : SpoolEvent → SpoolEvent)
    (hid : ∀ event, (change event).eventId = event.eventId)
    (hsequence : ∀ event, (change event).sequence = event.sequence) (rows : List ChatStats)
    (hleased : ∀ event, findEvent eventId spool.events = some event →
      (change event).status = .processing → (change event).leaseUntil.isSome = true)
    (hself : ∀ event, findEvent eventId spool.events = some event →
      (event.status = .delivered ∨ reopened eventId) →
      (change event).status = .delivered ∨ reopened' eventId)
    (hmono : ∀ other, reopened other → reopened' other) :
    Drained reopened' { spool with events := updateEvent eventId change spool.events, chatStats := rows } := by
  have hsequences : (updateEvent eventId change spool.events).map SpoolEvent.sequence
      = spool.events.map SpoolEvent.sequence :=
    Keyed.map_update change _ (fun event _ _ => hsequence event)
  have hcases : ∀ event ∈ updateEvent eventId change spool.events,
      (∃ old, findEvent eventId spool.events = some old ∧ old ∈ spool.events ∧ old.eventId = eventId ∧
        event = change old) ∨ (event ∈ spool.events ∧ event.eventId ≠ eventId) := by
    intro event hevent
    rcases Keyed.mem_update.mp hevent with ⟨old, hold, hkey, rfl⟩ | hother
    · have hfound := Keyed.find_of_mem h.ids hold
      rw [hkey] at hfound
      exact Or.inl ⟨old, hfound, hold, hkey, rfl⟩
    · exact Or.inr hother
  refine ⟨by rw [ids_update change hid]; exact h.ids, by rw [hsequences]; exact h.sequences, ?_, ?_, ?_⟩
  · refine h.cursor.imp_right ?_
    rintro ⟨event, hevent, hcursor⟩
    have hmem : spool.cursor ∈ (updateEvent eventId change spool.events).map SpoolEvent.sequence := by
      rw [hsequences]
      exact List.mem_map.mpr ⟨event, hevent, hcursor⟩
    obtain ⟨after, hafter, heq⟩ := List.mem_map.mp hmem
    exact ⟨after, hafter, heq⟩
  · intro event hevent hprocessing
    rcases hcases event hevent with ⟨old, hfind, -, -, rfl⟩ | ⟨hold, -⟩
    · exact hleased old hfind hprocessing
    · exact h.leased event hold hprocessing
  · intro event hevent hle
    rcases hcases event hevent with ⟨old, hfind, hold, hkey, rfl⟩ | ⟨hold, -⟩
    · rw [hsequence] at hle
      rw [hid, hkey]
      have hbehind := h.behind old hold hle
      rw [hkey] at hbehind
      exact hself old hfind hbehind
    · exact (h.behind event hold hle).imp_right (hmono event.eventId)

theorem lt_nextEventSequence {events : List SpoolEvent} {event : SpoolEvent} (h : event ∈ events) :
    event.sequence < nextEventSequence events := by
  unfold nextEventSequence
  rcases hmax : (events.map SpoolEvent.sequence).max? with _ | last
  · rw [List.max?_eq_none_iff, List.map_eq_nil_iff] at hmax
    rw [hmax] at h
    exact absurd h List.not_mem_nil
  · have hle := (List.max?_eq_some_iff.mp hmax).2 _ (List.mem_map_of_mem h)
    exact Nat.lt_succ_of_le hle

section

variable (h : Drained reopened spool)

include h

theorem Drained.insert (now : ℤ) {eventId : List Char}
    (hfresh : findEvent eventId spool.events = none) (payload : SpoolPayload) (rows : List ChatStats) :
    Drained reopened { spool with
      events := spool.events ++ [newEvent now eventId payload (nextEventSequence spool.events)]
      chatStats := rows } := by
  refine ⟨nodup_ids_concat h.ids hfresh, ?_, ?_, ?_, ?_⟩
  · change ((spool.events ++ [newEvent now eventId payload _]).map SpoolEvent.sequence).Nodup
    rw [List.map_append, List.map_singleton]
    refine List.Nodup.append h.sequences (List.nodup_singleton _) ?_
    rw [List.disjoint_singleton]
    intro hmem
    obtain ⟨event, hevent, heq⟩ := List.mem_map.mp hmem
    exact absurd heq (lt_nextEventSequence hevent).ne
  · refine h.cursor.imp_right ?_
    rintro ⟨event, hevent, hcursor⟩
    exact ⟨event, List.mem_append_left _ hevent, hcursor⟩
  · intro event hevent hprocessing
    rcases List.mem_append.mp hevent with hold | hnew
    · exact h.leased event hold hprocessing
    · rw [List.mem_singleton.mp hnew] at hprocessing
      exact absurd hprocessing (by simp [newEvent])
  · intro event hevent hle
    rcases List.mem_append.mp hevent with hold | hnew
    · exact h.behind event hold hle
    · exfalso
      rw [List.mem_singleton.mp hnew] at hle
      change nextEventSequence spool.events ≤ spool.cursor at hle
      rcases h.cursor with hzero | ⟨last, hlast, hcursor⟩
      · rw [hzero] at hle
        unfold nextEventSequence at hle
        omega
      · have hlt := lt_nextEventSequence hlast
        omega

/-! ## Operations -/

theorem Drained.refresh (now : ℤ) (eventId : List Char) (payload : SpoolPayload) :
    Drained reopened { spool with events := updateEvent eventId (refreshEvent now payload) spool.events } := by
  refine h.update (refreshEvent now payload) (refreshEvent_eventId payload) (refreshEvent_sequence payload)
    spool.chatStats ?_ ?_ (fun _ hother => hother)
  · intro event hfind hprocessing
    rw [refreshEvent_leaseUntil]
    rw [refreshEvent_status] at hprocessing
    exact h.leased event (Keyed.mem_of_find hfind).1 hprocessing
  · intro event _ hbehind
    rw [refreshEvent_status]
    exact hbehind

theorem Drained.reopen (now : ℤ) (eventId : List Char) (payload : SpoolPayload)
    (hmono : ∀ other, reopened other → reopened' other)
    (hself : IsDelivered spool eventId → reopened' eventId) :
    Drained reopened' { spool with events := updateEvent eventId (reopenEvent now payload) spool.events } := by
  refine h.update (reopenEvent now payload) (reopenEvent_eventId payload) (reopenEvent_sequence payload)
    spool.chatStats ?_ ?_ hmono
  · intro event hfind hprocessing
    rcases reopenEvent_cases now payload event with ⟨-, hqueued⟩ | ⟨-, hsame⟩
    · rw [hqueued] at hprocessing
      exact absurd hprocessing (by decide)
    · rw [hsame] at hprocessing ⊢
      exact h.leased event (Keyed.mem_of_find hfind).1 hprocessing
  · intro event hfind hbehind
    rcases reopenEvent_cases now payload event with ⟨hdelivered, -⟩ | ⟨-, hsame⟩
    · exact Or.inr (hself ⟨event, hfind, hdelivered⟩)
    · rw [hsame]
      exact hbehind.imp_right (hmono eventId)

end

variable {now : ℤ}

section

variable (h : Drained reopened spool)

include h

theorem Drained.enqueue (eventId : List Char) (payload : SpoolPayload)
    (refresh reopen : Bool) (hmono : ∀ other, reopened other → reopened' other)
    (hself : refresh = true → reopen = true → IsDelivered spool (settings.strip eventId) →
      reopened' (settings.strip eventId)) :
    Drained reopened' (kept spool (enqueue settings now eventId payload refresh reopen spool)) := by
  obtain ⟨hcursor, hevents | ⟨hfresh, hevents⟩ | ⟨-, -, hevents⟩ | ⟨hrefresh, hreopen, hevents⟩⟩ :=
    enqueue_cases settings now eventId payload refresh reopen spool
  · exact (h.congr hevents hcursor).mono hmono
  · exact ((h.insert now hfresh payload []).congr hevents hcursor).mono hmono
  · exact ((h.refresh now (settings.strip eventId) payload).congr hevents hcursor).mono hmono
  · refine ((h.refresh now (settings.strip eventId) payload).reopen now (settings.strip eventId) payload hmono
      ?_).congr hevents hcursor
    -- the refresh before the reopening leaves the status
    rintro ⟨event, hfind, hdelivered⟩
    refine hself hrefresh hreopen ?_
    rw [findEvent_update _ (refreshEvent_eventId payload), if_pos rfl] at hfind
    obtain ⟨old, hold, rfl⟩ := Option.map_eq_some_iff.mp hfind
    rw [refreshEvent_status] at hdelivered
    exact ⟨old, hold, hdelivered⟩

theorem Drained.claim (eventId : List Char) (leaseSeconds : ℤ) :
    Drained reopened (kept spool (claim now eventId leaseSeconds spool)) := by
  rcases claim_cases now leaseSeconds eventId spool with ⟨result, hclaim⟩ | hsame
  · obtain ⟨event, hfind, hdelivered, -, hevents, hcursor⟩ := claim_claimed hclaim
    rw [hclaim]
    refine (h.update (claimEvent now leaseSeconds) (fun _ => rfl) (fun _ => rfl) [] (fun _ _ _ => rfl) ?_
      (fun _ hother => hother)).congr hevents hcursor
    intro found hfound hbehind
    obtain rfl : event = found := Option.some.inj (hfind.symm.trans hfound)
    exact Or.inr (hbehind.resolve_left hdelivered)
  · rw [hsame]
    exact h

/-- A delivery, and the cursor behind it. -/
theorem Drained.deliver (eventId : List Char) (change : SpoolEvent → SpoolEvent)
    (hid : ∀ event, (change event).eventId = event.eventId)
    (hsequence : ∀ event, (change event).sequence = event.sequence)
    (hdelivered : ∀ event, (change event).status = .delivered) (rows : List ChatStats) :
    Drained reopened (advanceCursor
      { spool with events := updateEvent eventId change spool.events, chatStats := rows }) := by
  refine Drained.advance (h.update change hid hsequence rows ?_ ?_ (fun _ hother => hother))
  · intro event _ hprocessing
    rw [hdelivered] at hprocessing
    exact absurd hprocessing (by decide)
  · exact fun event _ _ => Or.inl (hdelivered event)

end

/-- An operation leaves behind the cursor what is delivered, what stood there undelivered, and what it
    reopens. -/
theorem drained_step (settings : SpoolSettings) (now : ℤ) (h : Drained reopened spool) (op : SpoolOp)
    (hallowed : FailsUndelivered spool op) :
    Drained (fun eventId => reopened eventId ∨ (AsksReopen settings eventId op ∧ IsDelivered spool eventId))
      (applyOp settings now op spool) := by
  cases op with
  | enqueue eventId payload refresh reopen =>
      refine h.enqueue eventId payload refresh reopen (fun _ => Or.inl) (fun hrefresh hreopen hdelivered => ?_)
      exact Or.inr ⟨⟨rfl, hrefresh, hreopen⟩, hdelivered⟩
  | claim eventId leaseSeconds => exact (h.claim eventId leaseSeconds).mono (fun _ => Or.inl)
  | markDelivered eventId =>
      exact (h.deliver eventId (deliverEvent now) (fun _ => rfl) (fun _ => rfl) (fun _ => rfl) _).mono
        (fun _ => Or.inl)
  | markFailed eventId error retryAfter =>
      refine (h.update (failEvent now error retryAfter) (fun _ => rfl) (fun _ => rfl) _ ?_ ?_
        (fun _ hother => hother)).mono (fun _ => Or.inl)
      · exact fun event _ hprocessing => absurd hprocessing (by simp [failEvent])
      · intro event hfind hbehind
        exact Or.inr (hbehind.resolve_left (fun hdelivered => hallowed ⟨event, hfind, hdelivered⟩))
  | markIgnored eventId reason =>
      rcases markIgnored_cases settings now eventId reason spool with hsame | ⟨chatStats, hspool⟩
      · exact (h.congr (by rw [applyOp, hsame]) (by rw [applyOp, hsame])).mono (fun _ => Or.inl)
      · have hdeliver := h.deliver (settings.strip eventId) (ignoreEvent now reason) (fun _ => rfl)
          (fun _ => rfl) (fun _ => rfl) chatStats
        rw [← hspool] at hdeliver
        exact hdeliver.mono (fun _ => Or.inl)
  | advanceCursor => exact h.advance.mono (fun _ => Or.inl)

/-! ## Runs -/

theorem reopened_concat {ops : List (ℤ × SpoolOp)} {op : ℤ × SpoolOp} {eventId : List Char}
    (h : Reopened settings ops eventId) (hnot : ¬ IsDelivered (spoolAfter settings (ops ++ [op])) eventId) :
    Reopened settings (ops ++ [op]) eventId := by
  obtain ⟨before, reopening, after, rfl, hasks, hdelivered, hsince⟩ := h
  refine ⟨before, reopening, after ++ [op], by rw [List.append_assoc, List.cons_append], hasks, hdelivered, ?_⟩
  intro since hprefix
  rcases List.prefix_concat_iff.mp hprefix with rfl | hold
  · rw [← List.cons_append, ← List.append_assoc]
    exact hnot
  · exact hsince since hold

theorem reopened_of_asks {ops : List (ℤ × SpoolOp)} {op : ℤ × SpoolOp} {eventId : List Char}
    (hasks : AsksReopen settings eventId op.2) (hdelivered : IsDelivered (spoolAfter settings ops) eventId)
    (hnot : ¬ IsDelivered (spoolAfter settings (ops ++ [op])) eventId) :
    Reopened settings (ops ++ [op]) eventId := by
  refine ⟨ops, op, [], rfl, hasks, hdelivered, ?_⟩
  intro since hprefix
  rw [List.prefix_nil.mp hprefix]
  exact hnot

theorem drained_run (settings : SpoolSettings) (ops : List (ℤ × SpoolOp))
    (hfails : Runs.InTurn (fun before op => FailsUndelivered (spoolAfter settings before) op.2) ops) :
    Drained (Reopened settings ops) (spoolAfter settings ops) := by
  induction ops using List.reverseRecOn with
  | nil => exact drained_empty
  | append_singleton ops op ih =>
      obtain ⟨hbefore, hop⟩ := (Runs.inTurn_concat _ ops op).mp hfails
      have hstep := drained_step settings op.1 (ih hbefore) op.2 hop
      rw [← spoolAfter_concat] at hstep
      refine ⟨hstep.ids, hstep.sequences, hstep.cursor, hstep.leased, ?_⟩
      intro event hevent hle
      by_cases hstatus : event.status = .delivered
      · exact Or.inl hstatus
      · have hnot : ¬ IsDelivered (spoolAfter settings (ops ++ [op])) event.eventId := by
          rintro ⟨found, hfind, hdelivered⟩
          obtain rfl : event = found :=
            Option.some.inj ((Keyed.find_of_mem hstep.ids hevent).symm.trans hfind)
          exact hstatus hdelivered
        rcases (hstep.behind event hevent hle).resolve_left hstatus with hreopened | ⟨hasks, hdelivered⟩
        · exact Or.inr (reopened_concat hreopened hnot)
        · exact Or.inr (reopened_of_asks hasks hdelivered hnot)

theorem comes_due {event : SpoolEvent} (hstatus : event.status ≠ .delivered)
    (hleased : event.status = .processing → event.leaseUntil.isSome = true) :
    ∃ time, ∀ now, time ≤ now → isDue now event = true := by
  unfold isDue
  rcases hcase : event.status with _ | _ | _ | _
  · exact ⟨event.availableAt, fun now hnow => by simp [hnow]⟩
  · obtain ⟨lease, hlease⟩ := Option.isSome_iff_exists.mp (hleased hcase)
    exact ⟨lease, fun now hnow => by simp [hlease, hnow]⟩
  · exact absurd hcase hstatus
  · exact ⟨event.availableAt, fun now hnow => by simp [hnow]⟩

/-- **Behind the cursor every event is delivered, or a correction has reopened it**, where no failure is
    reported for a delivered event. What is reopened comes due again. -/
theorem behind_cursor_delivered (settings : SpoolSettings) (ops : List (ℤ × SpoolOp))
    (hfails : Runs.InTurn (fun before op => FailsUndelivered (spoolAfter settings before) op.2) ops) :
    ∀ event ∈ (spoolAfter settings ops).events, event.sequence ≤ (spoolAfter settings ops).cursor →
      event.status = .delivered ∨
        (Reopened settings ops event.eventId ∧ ∃ time, ∀ now, time ≤ now → isDue now event = true) := by
  have hdrained := drained_run settings ops hfails
  intro event hevent hle
  by_cases hstatus : event.status = .delivered
  · exact Or.inl hstatus
  · have hreopened := (hdrained.behind event hevent hle).resolve_left hstatus
    exact Or.inr ⟨hreopened, comes_due hstatus (hdrained.leased event hevent)⟩

/-- A correction of a delivered event. -/
def corrected : List (ℤ × SpoolOp) :=
  [(0, .enqueue ['e'] (textPayload "a" "one") false false), (seconds 1, .claim ['e'] 300),
    (seconds 2, .markDelivered ['e']), (seconds 3, .enqueue ['e'] (textPayload "a" "two") true true)]

theorem behind_cursor_delivered_corrected : Reopened bridgeSettings corrected ['e'] := by
  obtain ⟨event, hevent, hle, hid, hstatus⟩ : ∃ event ∈ (spoolAfter bridgeSettings corrected).events,
      event.sequence ≤ (spoolAfter bridgeSettings corrected).cursor ∧ event.eventId = ['e'] ∧
        event.status = .queued := by
    decide +kernel
  have hfails : Runs.InTurn (fun before op => FailsUndelivered (spoolAfter bridgeSettings before) op.2)
      corrected := by
    intro before op after hsplit
    have hop : op ∈ corrected := by
      rw [hsplit]
      exact List.mem_append_right _ List.mem_cons_self
    simp only [corrected, List.mem_cons, List.not_mem_nil, or_false] at hop
    rcases hop with rfl | rfl | rfl | rfl <;> trivial
  rcases behind_cursor_delivered bridgeSettings corrected hfails event hevent hle with hdelivered | ⟨hreopened, -⟩
  · rw [hstatus] at hdelivered
    exact absurd hdelivered (by decide)
  · rw [hid] at hreopened
    exact hreopened

/-- A corrected event is queued behind the cursor. -/
theorem corrected_behind_cursor : ∃ event ∈ (spoolAfter bridgeSettings corrected).events,
    event.sequence ≤ (spoolAfter bridgeSettings corrected).cursor ∧ event.status = .queued := by
  decide +kernel

end TradingHarness
