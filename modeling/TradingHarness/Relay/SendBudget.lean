import Mathlib.Data.Int.Order.Basic
import Mathlib.Data.List.Perm.Subperm
import Mathlib.Tactic.Tauto
import TradingHarness.Library.Driven
import TradingHarness.Library.Windows
import TradingHarness.Relay.SendGate

set_option autoImplicit false

/-! # The send budget

The limits of the gate and its keys over all runs of its callers. The table alone keeps them; for the messages that
reach a chat they hold where no accepted send is recorded as failed and none is accepted long after it was admitted. -/

namespace TradingHarness.SendGate

section Budget

variable {δ : Type}

/-! ## What is claimed -/

/-- The row takes budget in a set of chats. -/
def takesBudget (chats : String → Bool) (row : AuditRow δ) : Bool := row.counts && chats row.chatId

/-- The attempt is of one key with an earlier one, within its lifetime. -/
def Repeats (ttl : ℤ) (newer older : AuditRow δ) : Prop :=
  newer.idempotencyKey = older.idempotencyKey ∧ newer.idempotencyKey ≠ none ∧ newer.createdAt - ttl ≤ older.createdAt

/-- The message was accepted, or nobody knows whether it was. -/
def MayHaveReached (world : SendWorld δ) (row : AuditRow δ) : Prop :=
  row.result = .unknown ∨ row.id ∈ world.inAir ∨ row.id ∈ world.reached.map Reached.auditId

/-- The messages that the gateway accepted in a span up to now. -/
def reachedWithin (span : ℤ) (chats : String → Bool) (world : SendWorld δ) : ℕ :=
  world.reached.countP (fun message => chats message.chatId && decide (world.now - span ≤ message.moment))

/-! ## The condition -/

/-- A message that was accepted within the span was also admitted within it. -/
def NoneStraddles (span : ℤ) (chats : String → Bool) (world : SendWorld δ) : Prop :=
  ∀ message ∈ world.reached, ∀ row ∈ world.rows, row.id = message.auditId → chats row.chatId = true →
    world.now - span ≤ message.moment → world.now - span ≤ row.createdAt

/-- No attempt that takes budget was admitted more than a span after this one. -/
def NoneLater (span : ℤ) (chats : String → Bool) (id : ℕ) (world : SendWorld δ) : Prop :=
  ∀ row ∈ world.rows, row.id = id → chats row.chatId = true → ∀ other ∈ world.rows, takesBudget chats other = true →
    other.createdAt ≤ row.createdAt + span

/-- The attempt that the end of a call records as failed. -/
def recordsFailure (world : SendWorld δ) (sending : Sending) : Option ℕ :=
  if sending.slot.all (fun slot => world.slots.contains slot) then sending.auditId else none

/-- A failure is recorded where the packet was not sent or the gateway refused it; an attempt is admitted, and a packet
    accepted, where none of its window straddles the window's edge. -/
def SendFits (world : SendWorld δ) : SendOp → Prop
  | .send request =>
    NoneStraddles minuteSpan (· == request.chatId) world ∧ NoneStraddles hourSpan (fun _ => true) world
  | .begin thread => ∀ sending, world.find thread = some sending →
    NoneStraddles minuteSpan (· == sending.request.chatId) world ∧ NoneStraddles hourSpan (fun _ => true) world
  | .answer id => (∀ chat, NoneLater minuteSpan (· == chat) id world) ∧ NoneLater hourSpan (fun _ => true) id world
  | .raise thread _ => ∀ sending, world.find thread = some sending → ∀ id, recordsFailure world sending = some id →
    id ∉ world.inAir ∧ id ∉ world.reached.map Reached.auditId
  | _ => True

/-! ## The table -/

/-- There is a row of the attempt, and it has not failed. -/
def Placed (rows : List (AuditRow δ)) (id : ℕ) : Prop := ∃ row ∈ rows, row.id = id ∧ row.result ≠ .failed

/-- The invariant of the rows. -/
structure RowsSound (limits : SendLimits) (now : ℤ) (rows : List (AuditRow δ)) : Prop where
  ids : ∀ row ∈ rows, row.id ≤ rows.length
  nodup : (rows.map AuditRow.id).Nodup
  dates : ∀ row ∈ rows, row.createdAt ≤ now
  chat : ∀ chat, Windows.Kept AuditRow.createdAt minuteSpan limits.perChatPerMin (takesBudget (· == chat)) rows
  hour : Windows.Kept AuditRow.createdAt hourSpan limits.globalPerHour (takesBudget (fun _ => true)) rows
  keys : rows.Pairwise (fun newer older => Repeats limits.idempotencyTtl newer older → older.result = .failed)

/-- A change of a row's result that does not bring a failed one back. -/
structure Ends (change : AuditRow δ → AuditRow δ) (rows : List (AuditRow δ)) : Prop where
  id : ∀ row, (change row).id = row.id
  key : ∀ row, (change row).idempotencyKey = row.idempotencyKey
  chatId : ∀ row, (change row).chatId = row.chatId
  createdAt : ∀ row, (change row).createdAt = row.createdAt
  failed : ∀ row ∈ rows, row.result = .failed → (change row).result = .failed

variable {limits : SendLimits} {now : ℤ} {rows : List (AuditRow δ)} {change : AuditRow δ → AuditRow δ}

theorem takesBudget_iff {chats : String → Bool} {row : AuditRow δ} :
    takesBudget chats row = true ↔ row.result ≠ .failed ∧ chats row.chatId = true := by
  unfold takesBudget AuditRow.counts
  rw [Bool.and_eq_true, decide_eq_true_iff]

theorem Ends.takesBudget (h : Ends change rows) (chats : String → Bool) {row : AuditRow δ} (hrow : row ∈ rows)
    (hcounts : takesBudget chats (change row) = true) : SendGate.takesBudget chats row = true := by
  rw [takesBudget_iff] at hcounts ⊢
  exact ⟨fun hfailed => hcounts.1 (h.failed row hrow hfailed), h.chatId row ▸ hcounts.2⟩

theorem RowsSound.ended (h : RowsSound limits now rows) (hends : Ends change rows) :
    RowsSound limits now (rows.map change) := by
  refine ⟨fun row hrow => ?_, ?_, fun row hrow => ?_, fun chat => ?_, ?_, ?_⟩
  · obtain ⟨old, hold, rfl⟩ := List.mem_map.mp hrow
    rw [hends.id, List.length_map]
    exact h.ids old hold
  · have hids : (rows.map change).map AuditRow.id = rows.map AuditRow.id := by
      rw [List.map_map]
      exact List.map_congr_left (fun row _ => hends.id row)
    rw [hids]
    exact h.nodup
  · obtain ⟨old, hold, rfl⟩ := List.mem_map.mp hrow
    rw [hends.createdAt]
    exact h.dates old hold
  · exact (h.chat chat).map change hends.createdAt (fun row hrow => hends.takesBudget _ hrow)
  · exact h.hour.map change hends.createdAt (fun row hrow => hends.takesBudget _ hrow)
  · rw [List.pairwise_map]
    refine h.keys.imp_of_mem (fun {newer older} _ holder hfenced hrepeats => hends.failed older holder (hfenced ?_))
    unfold Repeats at hrepeats ⊢
    rw [hends.key, hends.key, hends.createdAt, hends.createdAt] at hrepeats
    exact hrepeats

theorem RowsSound.later (h : RowsSound limits now rows) {later : ℤ} (hlater : now ≤ later) : RowsSound limits later rows :=
  { h with dates := fun row hrow => Int.le_trans (h.dates row hrow) hlater }

theorem Placed.ended {id : ℕ} (h : Placed rows id) (hid : ∀ row, (change row).id = row.id)
    (hkeeps : ∀ row ∈ rows, row.id = id → row.result ≠ .failed → (change row).result ≠ .failed) :
    Placed (rows.map change) id := by
  obtain ⟨row, hrow, hrowid, hresult⟩ := h
  exact ⟨change row, List.mem_map_of_mem hrow, (hid row).trans hrowid, hkeeps row hrow hrowid hresult⟩

theorem ite_field {α : Type} (read : AuditRow δ → α) {p : Prop} [Decidable p] {row other : AuditRow δ}
    (h : read other = read row) : read (if p then other else row) = read row := by
  split
  next => exact h
  next => rfl

theorem ends_asUnknown (now : ℤ) (rows : List (AuditRow δ)) : Ends (asUnknown now) rows where
  id := fun _ => ite_field AuditRow.id rfl
  key := fun _ => ite_field AuditRow.idempotencyKey rfl
  chatId := fun _ => ite_field AuditRow.chatId rfl
  createdAt := fun _ => ite_field AuditRow.createdAt rfl
  failed := by
    intro row _ hfailed
    unfold asUnknown
    rw [if_neg (by rw [hfailed]; simp)]
    exact hfailed

theorem asUnknown_not_failed (now : ℤ) {row : AuditRow δ} (h : row.result ≠ .failed) : (asUnknown now row).result ≠ .failed := by
  unfold asUnknown
  split
  next => simp
  next => exact h

/-! ## Admission -/

theorem RowsSound.nodup_cons (h : RowsSound limits now rows) (row : AuditRow δ) (hid : row.id = rows.length + 1) :
    ((row :: rows).map AuditRow.id).Nodup := by
  rw [List.map_cons, List.nodup_cons]
  refine ⟨fun hmem => ?_, h.nodup⟩
  obtain ⟨old, hold, hsame⟩ := List.mem_map.mp hmem
  have hle := h.ids old hold
  omega

theorem RowsSound.key_failed (h : RowsSound limits now rows) {key : String}
    (hlast : ∀ prior, priorSend limits key now rows = some prior → prior.result = .failed) :
    ∀ row ∈ rows, row.idempotencyKey = some key → now - limits.idempotencyTtl ≤ row.createdAt → row.result = .failed := by
  intro row hrow hkey hlifetime
  rcases hprior : priorSend limits key now rows with _ | prior
  · have hnone := List.find?_eq_none.mp hprior row hrow
    rw [decide_eq_true_iff] at hnone
    exact absurd ⟨hkey, hlifetime⟩ hnone
  · have hfailed := hlast prior hprior
    obtain ⟨hholds, newer, older, hsplit, hskipped⟩ := List.find?_eq_some_iff_append.mp hprior
    rw [decide_eq_true_iff] at hholds
    rw [hsplit, List.mem_append, List.mem_cons] at hrow
    rcases hrow with hnewer | rfl | holder
    · have hskip := hskipped row hnewer
      rw [Bool.not_eq_true', decide_eq_false_iff_not] at hskip
      exact absurd ⟨hkey, hlifetime⟩ hskip
    · exact hfailed
    · -- the last row was admitted before now, so the older one lies within its lifetime too
      have hkeys := h.keys
      rw [hsplit, List.pairwise_append] at hkeys
      have hdate : prior.createdAt ≤ now := h.dates prior (by rw [hsplit]; simp)
      refine List.rel_of_pairwise_cons hkeys.2.1 holder ⟨hholds.1.trans hkey.symm, by rw [hholds.1]; simp, ?_⟩
      omega

theorem countLocked_chat (since : ℤ) (chat : String) (rows : List (AuditRow δ)) :
    (countLocked since (some chat) rows).1 = Windows.liveSince AuditRow.createdAt (takesBudget (· == chat)) since rows := by
  unfold countLocked Windows.liveSince takesBudget
  dsimp only
  rw [← List.countP_eq_length_filter]
  refine List.countP_congr (fun row _ => ?_)
  simp only [Option.all_some, Bool.and_eq_true]
  tauto

theorem countLocked_all (since : ℤ) (rows : List (AuditRow δ)) :
    (countLocked since none rows).1 = Windows.liveSince AuditRow.createdAt (takesBudget (fun _ => true)) since rows := by
  unfold countLocked Windows.liveSince takesBudget
  dsimp only
  rw [← List.countP_eq_length_filter]
  refine List.countP_congr (fun row _ => ?_)
  simp only [Option.all_none, Bool.and_eq_true]
  tauto

section Admission

variable [DecidableEq δ] {digest : String → δ} {request : SendRequest}

/-- What an admission says of the table. -/
structure Admits (limits : SendLimits) (digest : String → δ) (request : SendRequest) (now : ℤ) (rows : List (AuditRow δ)) :
    Prop where
  prior : replayOf limits digest request now rows = .ok none
  chat : (countLocked (now - minuteSpan) (some request.chatId) rows).1 < limits.perChatPerMin
  hour : (countLocked (now - hourSpan) none rows).1 < limits.globalPerHour

theorem begin_admitted {id : ℕ} {after : List (AuditRow δ)}
    (h : limits.begin digest request now rows = .ok (.auditId id, after)) :
    Admits limits digest request now rows ∧ id = rows.length + 1 ∧
      after = newAudit digest request now (rows.length + 1) :: rows := by
  unfold SendLimits.begin at h
  split at h
  next => exact absurd h (by simp)
  next => exact absurd h (by simp)
  next hprior =>
    dsimp only at h
    split at h
    next => exact absurd h (by simp)
    next hchat =>
      split at h
      next => exact absurd h (by simp)
      next hhour =>
        simp only [Except.ok.injEq, Prod.mk.injEq, Admitted.auditId.injEq] at h
        exact ⟨⟨hprior, Nat.not_le.mp hchat, Nat.not_le.mp hhour⟩, h.1.symm, h.2.symm⟩

theorem Admits.failed (h : Admits limits digest request now rows) {key : String} (hkey : orNone request.idempotencyKey = some key)
    {prior : AuditRow δ} (hprior : priorSend limits key now rows = some prior) : prior.result = .failed := by
  have hreplay := h.prior
  unfold replayOf at hreplay
  rw [hkey] at hreplay
  dsimp only at hreplay
  rw [hprior] at hreplay
  dsimp only at hreplay
  unfold priorAnswer at hreplay
  split at hreplay
  next => exact absurd hreplay (by simp)
  next =>
    split at hreplay
    next => exact absurd hreplay (by simp)
    next => exact absurd hreplay (by simp)
    next => exact absurd hreplay (by simp)
    next hfailed => exact hfailed

theorem RowsSound.cons (h : RowsSound limits now rows) (hadmits : Admits limits digest request now rows) :
    RowsSound limits now (newAudit digest request now (rows.length + 1) :: rows) := by
  refine ⟨fun row hrow => ?_, h.nodup_cons _ rfl, fun row hrow => ?_, fun chat => ?_, ?_, ?_⟩
  · rw [List.length_cons]
    rcases List.mem_cons.mp hrow with rfl | hold
    · exact Nat.le_refl _
    · exact Nat.le_succ_of_le (h.ids row hold)
  · rcases List.mem_cons.mp hrow with rfl | hold
    · exact Int.le_refl _
    · exact h.dates row hold
  · refine (h.chat chat).cons (fun hlive => ?_)
    have hchat : request.chatId = chat := eq_of_beq (takesBudget_iff.mp hlive).2
    have hroom := hadmits.chat
    rw [countLocked_chat, hchat] at hroom
    exact hroom
  · refine h.hour.cons (fun _ => ?_)
    have hroom := hadmits.hour
    rw [countLocked_all] at hroom
    exact hroom
  · rw [List.pairwise_cons]
    refine ⟨fun older holder hrepeats => ?_, h.keys⟩
    obtain ⟨hsame, hkeyed, hlifetime⟩ := hrepeats
    obtain ⟨key, hkey⟩ := Option.ne_none_iff_exists'.mp hkeyed
    exact h.key_failed (fun prior => hadmits.failed hkey) older holder (hsame.symm.trans hkey) hlifetime

end Admission

/-! ## Calls -/

/-- The invariant of the calls under way: each has its own attempt, which has not failed. -/
structure CallsSound (world : SendWorld δ) : Prop where
  threads : (world.sendings.map Sending.thread).Nodup
  fresh : ∀ sending ∈ world.sendings, sending.thread < world.threads
  own : ∀ one ∈ world.sendings, ∀ other ∈ world.sendings, ∀ id, one.auditId = some id → other.auditId = some id →
    one.thread = other.thread
  live : ∀ sending ∈ world.sendings, ∀ id, sending.auditId = some id → Placed world.rows id

structure GateSound (limits : SendLimits) (world : SendWorld δ) : Prop where
  rows : RowsSound limits world.now world.rows
  calls : CallsSound world

/-- Where an accepted message was admitted more than a span before another attempt, it was also accepted more than a span
    before that. -/
def EdgeKept (span : ℤ) (chats : String → Bool) (world : SendWorld δ) : Prop :=
  ∀ message ∈ world.reached, ∀ row ∈ world.rows, row.id = message.auditId → chats row.chatId = true →
    ∀ other ∈ world.rows, takesBudget chats other = true → row.createdAt + span < other.createdAt →
      message.moment + span < other.createdAt

/-- The packets that were sent, whatever became of them. -/
def SendWorld.sent (world : SendWorld δ) : List ℕ := world.inAir ++ world.reached.map Reached.auditId

/-- The invariant of the messages: each was sent once, and its attempt has not failed. -/
structure AirSound (world : SendWorld δ) : Prop where
  placed : ∀ id ∈ world.sent, Placed world.rows id
  chats : ∀ message ∈ world.reached, ∀ row ∈ world.rows, row.id = message.auditId → row.chatId = message.chatId
  moments : ∀ message ∈ world.reached, message.moment ≤ world.now
  once : world.sent.Nodup
  unposted : ∀ sending ∈ world.sendings, sending.posted = false → ∀ id, sending.auditId = some id → id ∉ world.sent
  chat : ∀ chat, EdgeKept minuteSpan (· == chat) world
  hour : EdgeKept hourSpan (fun _ => true) world

variable {world : SendWorld δ}

theorem RowsSound.row_eq (h : RowsSound limits now rows) {row other : AuditRow δ} (hrow : row ∈ rows) (hother : other ∈ rows)
    (hid : row.id = other.id) : row = other :=
  List.inj_on_of_nodup_map h.nodup hrow hother hid

theorem Placed.of_mem (h : RowsSound limits now rows) {row : AuditRow δ} (hrow : row ∈ rows) (hplaced : Placed rows row.id) :
    row.result ≠ .failed := by
  obtain ⟨other, hother, hid, hresult⟩ := hplaced
  rw [h.row_eq hrow hother hid.symm]
  exact hresult

theorem Placed.cons {id : ℕ} (h : Placed rows id) (row : AuditRow δ) : Placed (row :: rows) id := by
  obtain ⟨old, hold, hid, hresult⟩ := h
  exact ⟨old, List.mem_cons_of_mem row hold, hid, hresult⟩

theorem Placed.le (h : RowsSound limits now rows) {id : ℕ} (hplaced : Placed rows id) : id ≤ rows.length := by
  obtain ⟨row, hrow, rfl, -⟩ := hplaced
  exact h.ids row hrow

theorem CallsSound.ended (h : CallsSound world) (hid : ∀ row, (change row).id = row.id) {sendings : List Sending}
    (hsub : sendings.Sublist world.sendings) (slots : List ℤ)
    (hkeeps : ∀ sending ∈ sendings, ∀ id, sending.auditId = some id → ∀ row ∈ world.rows, row.id = id →
      row.result ≠ .failed → (change row).result ≠ .failed) :
    CallsSound { world with rows := world.rows.map change, sendings := sendings, slots := slots } where
  threads := (hsub.map Sending.thread).nodup h.threads
  fresh := fun sending hsending => h.fresh sending (hsub.subset hsending)
  own := fun one hone other hother => h.own one (hsub.subset hone) other (hsub.subset hother)
  live := fun sending hsending id haudit =>
    (h.live sending (hsub.subset hsending) id haudit).ended hid (hkeeps sending hsending id haudit)

theorem EdgeKept.ended {span : ℤ} {chats : String → Bool} (h : EdgeKept span chats world) (hends : Ends change world.rows)
    (sendings : List Sending) (slots : List ℤ) :
    EdgeKept span chats { world with rows := world.rows.map change, sendings := sendings, slots := slots } := by
  intro message hmessage row hrow hid hchats other hother hcounts hlater
  obtain ⟨old, hold, rfl⟩ := List.mem_map.mp hrow
  obtain ⟨second, hsecond, rfl⟩ := List.mem_map.mp hother
  rw [hends.createdAt, hends.createdAt] at hlater
  rw [hends.id] at hid
  rw [hends.chatId] at hchats
  rw [hends.createdAt]
  exact h message hmessage old hold hid hchats second hsecond (hends.takesBudget chats hsecond hcounts) hlater

theorem AirSound.ended (h : AirSound world) (hends : Ends change world.rows) {sendings : List Sending}
    (hsub : sendings.Sublist world.sendings) (slots : List ℤ)
    (hkeeps : ∀ id ∈ world.sent, ∀ row ∈ world.rows, row.id = id → row.result ≠ .failed → (change row).result ≠ .failed) :
    AirSound { world with rows := world.rows.map change, sendings := sendings, slots := slots } where
  placed := fun id hid => (h.placed id hid).ended hends.id (hkeeps id hid)
  chats := by
    intro message hmessage row hrow hid
    obtain ⟨old, hold, rfl⟩ := List.mem_map.mp hrow
    rw [hends.chatId]
    exact h.chats message hmessage old hold ((hends.id old).symm.trans hid)
  moments := h.moments
  once := h.once
  unposted := fun sending hsending => h.unposted sending (hsub.subset hsending)
  chat := fun chat => (h.chat chat).ended hends sendings slots
  hour := h.hour.ended hends sendings slots

/-! ## Ends of calls -/

section Ending

variable {sending : Sending} {thread : ℕ}

/-- The row of a failed attempt is ended, the others stay. -/
def failing (audit : Option ℕ) (error : String) (now : ℤ) (row : AuditRow δ) : AuditRow δ :=
  if audit = some row.id then withEnd false error now row else row

theorem ends_failing (audit : Option ℕ) (error : String) (now : ℤ) (rows : List (AuditRow δ)) :
    Ends (failing audit error now) rows where
  id := fun _ => ite_field AuditRow.id rfl
  key := fun _ => ite_field AuditRow.idempotencyKey rfl
  chatId := fun _ => ite_field AuditRow.chatId rfl
  createdAt := fun _ => ite_field AuditRow.createdAt rfl
  failed := by
    intro row _ hfailed
    unfold failing
    split
    next => rfl
    next => exact hfailed

theorem failing_not_failed {audit : Option ℕ} {row : AuditRow δ} (error : String) (now : ℤ) (hne : audit ≠ some row.id)
    (h : row.result ≠ .failed) : (failing audit error now row).result ≠ .failed := by
  unfold failing
  rw [if_neg hne]
  exact h

theorem finishSend_eq (id : ℕ) (error : String) (now : ℤ) (rows : List (AuditRow δ)) :
    finishSend id false error now rows = rows.map (failing (some id) error now) := by
  unfold finishSend Keyed.update failing
  refine List.map_congr_left (fun row _ => ?_)
  by_cases hid : row.id = id
  · rw [if_pos hid, if_pos (by rw [hid])]
  · rw [if_neg hid, if_neg (by rw [Option.some.injEq]; exact Ne.symm hid)]

theorem handle_eq (world : SendWorld δ) (sending : Sending) (error : String) : ∃ slots, world.handle sending error =
    { world with slots := slots, rows := world.rows.map (failing (recordsFailure world sending) error world.now) } := by
  have hnone : world.rows.map (failing none error world.now) = world.rows :=
    (List.map_congr_left (fun row _ => if_neg (by simp))).trans (List.map_id _)
  have hrecorded : world.recorded sending error = world.rows.map (failing sending.auditId error world.now) := by
    unfold SendWorld.recorded
    split
    next haudit => rw [haudit, hnone]
    next id haudit => rw [haudit, finishSend_eq]
  unfold SendWorld.handle recordsFailure
  rw [hrecorded]
  rcases hslot : sending.slot with _ | slot
  · exact ⟨world.slots, rfl⟩
  · dsimp only
    unfold releaseUrgentSlot
    by_cases hheld : world.slots.contains slot = true
    · refine ⟨world.slots.erase slot, ?_⟩
      rw [if_pos hheld, if_pos (by simpa using hheld)]
    · refine ⟨world.slots, ?_⟩
      rw [if_neg hheld, if_neg (by simpa using hheld), hnone]

theorem recordsFailure_audit {id : ℕ} (h : recordsFailure world sending = some id) : sending.auditId = some id := by
  unfold recordsFailure at h
  split at h
  next => exact h
  next => exact absurd h (by simp)

theorem mem_leave {other : Sending} (h : other ∈ world.sendings.filter (fun sending => sending.thread != thread)) :
    other ∈ world.sendings ∧ other.thread ≠ thread := by
  rw [List.mem_filter] at h
  exact ⟨h.1, by simpa using h.2⟩

theorem SendWorld.mem_of_find (h : world.find thread = some sending) : sending ∈ world.sendings ∧ sending.thread = thread :=
  Keyed.mem_of_find h

theorem gateSound_raise (h : GateSound limits world) (hsending : sending ∈ world.sendings) (error : String) :
    GateSound limits ((world.handle sending error).leave sending.thread) := by
  obtain ⟨slots, hhandle⟩ := handle_eq world sending error
  rw [hhandle]
  refine ⟨h.rows.ended (ends_failing _ error world.now _), ?_⟩
  refine h.calls.ended (ends_failing _ error world.now world.rows).id List.filter_sublist slots ?_
  intro other hother id haudit row _ hid hresult
  obtain ⟨hmem, hthread⟩ := mem_leave hother
  refine failing_not_failed error world.now (fun hrecords => hthread ?_) hresult
  rw [hid] at hrecords
  exact h.calls.own other hmem sending hsending id haudit (recordsFailure_audit hrecords)

theorem airSound_raise (h : AirSound world) (error : String)
    (hfits : ∀ id, recordsFailure world sending = some id → id ∉ world.sent) :
    AirSound ((world.handle sending error).leave sending.thread) := by
  obtain ⟨slots, hhandle⟩ := handle_eq world sending error
  rw [hhandle]
  refine h.ended (ends_failing _ error world.now world.rows) List.filter_sublist slots ?_
  intro id hid row _ hrow hresult
  refine failing_not_failed error world.now (fun hrecords => ?_) hresult
  rw [hrow] at hrecords
  exact hfits id hrecords hid

theorem ends_accepted {id : ℕ} (h : RowsSound limits now rows) (hplaced : Placed rows id) :
    Ends (fun row => if row.id = id then withEnd true "" now row else row) rows where
  id := fun _ => ite_field AuditRow.id rfl
  key := fun _ => ite_field AuditRow.idempotencyKey rfl
  chatId := fun _ => ite_field AuditRow.chatId rfl
  createdAt := fun _ => ite_field AuditRow.createdAt rfl
  failed := by
    intro row hrow hfailed
    split
    next hid => exact absurd hfailed (Placed.of_mem h hrow (hid ▸ hplaced))
    next => exact hfailed

theorem accepted_not_failed {id : ℕ} {row : AuditRow δ} (now : ℤ) (h : row.result ≠ .failed) :
    (if row.id = id then withEnd true "" now row else row).result ≠ .failed := by
  split
  next => exact (by simp [withEnd])
  next => exact h

end Ending

/-! ## Admitted calls -/

section Entering

variable {sending : Sending}

theorem nodup_threads {sendings : List Sending} (h : (sendings.map Sending.thread).Nodup) (thread : ℕ)
    (change : Sending → Sending) (hthread : ∀ sending, (change sending).thread = sending.thread) :
    ((Keyed.update Sending.thread thread change sendings).map Sending.thread).Nodup := by
  rw [Keyed.map_update change Sending.thread (fun sending _ _ => hthread sending)]
  exact h

theorem mem_withAudit {thread id : ℕ} {other : Sending}
    (h : other ∈ Keyed.update Sending.thread thread (fun sending => { sending with auditId := some id }) world.sendings) :
    (∃ old ∈ world.sendings, old.thread = thread ∧ other = { old with auditId := some id }) ∨
      (other ∈ world.sendings ∧ other.thread ≠ thread) := by
  rcases Keyed.mem_update.mp h with ⟨old, hold, hthread, rfl⟩ | hother
  · exact Or.inl ⟨old, hold, hthread, rfl⟩
  · exact Or.inr hother

theorem CallsSound.cons (h : CallsSound world) (hrows : RowsSound limits world.now world.rows) (thread : ℕ)
    {row : AuditRow δ} (hid : row.id = world.rows.length + 1) (hresult : row.result ≠ .failed) :
    CallsSound { world with
      rows := row :: world.rows
      sendings := Keyed.update Sending.thread thread
        (fun sending => { sending with auditId := some (world.rows.length + 1) }) world.sendings } := by
  have hbelow : ∀ sending ∈ world.sendings, sending.auditId ≠ some (world.rows.length + 1) := by
    intro sending hsending haudit
    have hle := (h.live sending hsending _ haudit).le hrows
    omega
  refine ⟨?_, fun other hother => ?_, fun one hone other hother id hone' hother' => ?_, fun other hother id haudit => ?_⟩
  · exact nodup_threads h.threads thread _ (fun _ => rfl)
  · rcases mem_withAudit hother with ⟨old, hold, -, rfl⟩ | ⟨hold, -⟩
    · exact h.fresh old hold
    · exact h.fresh other hold
  · rcases mem_withAudit hone with ⟨old, -, hthread, rfl⟩ | ⟨hold, -⟩
    · rcases mem_withAudit hother with ⟨old', -, hthread', rfl⟩ | ⟨hold', -⟩
      · exact hthread.trans hthread'.symm
      · exact absurd (hother'.trans hone'.symm) (hbelow other hold')
    · rcases mem_withAudit hother with ⟨old', -, -, rfl⟩ | ⟨hold', -⟩
      · exact absurd (hone'.trans hother'.symm) (hbelow one hold)
      · exact h.own one hold other hold' id hone' hother'
  · rcases mem_withAudit hother with ⟨old, -, -, rfl⟩ | ⟨hold, -⟩
    · exact ⟨row, List.mem_cons_self, hid.trans (Option.some.inj haudit), hresult⟩
    · exact (h.live other hold id haudit).cons row

theorem EdgeKept.cons {span : ℤ} {chats : String → Bool} (h : EdgeKept span chats world) (hair : AirSound world)
    (hrows : RowsSound limits world.now world.rows) {row : AuditRow δ} (hid : row.id = world.rows.length + 1)
    (hdate : row.createdAt = world.now) (hnone : chats row.chatId = true → NoneStraddles span chats world)
    (sendings : List Sending) :
    EdgeKept span chats { world with rows := row :: world.rows, sendings := sendings } := by
  intro message hmessage first hfirst hfirstId hchats other hother hcounts hlater
  have hsent : message.auditId ∈ world.sent := List.mem_append_right _ (List.mem_map_of_mem hmessage)
  have hle := (hair.placed _ hsent).le hrows
  have hold : first ∈ world.rows := by
    rcases List.mem_cons.mp hfirst with rfl | hold
    · omega
    · exact hold
  rcases List.mem_cons.mp hother with rfl | hother
  · by_contra hnot
    have hadmitted := hnone (takesBudget_iff.mp hcounts).2 message hmessage first hold hfirstId hchats (by omega)
    omega
  · exact h message hmessage first hold hfirstId hchats other hother hcounts hlater

theorem AirSound.cons (h : AirSound world) (hrows : RowsSound limits world.now world.rows) (thread : ℕ)
    {row : AuditRow δ} (hid : row.id = world.rows.length + 1) (hdate : row.createdAt = world.now)
    (hchat : NoneStraddles minuteSpan (· == row.chatId) world) (hhour : NoneStraddles hourSpan (fun _ => true) world) :
    AirSound { world with
      rows := row :: world.rows
      sendings := Keyed.update Sending.thread thread
        (fun sending => { sending with auditId := some (world.rows.length + 1) }) world.sendings } := by
  have hbelow : ∀ id ∈ world.sent, id ≠ world.rows.length + 1 := by
    intro id hsent
    have hle := (h.placed id hsent).le hrows
    omega
  refine ⟨fun id hsent => (h.placed id hsent).cons row, fun message hmessage other hother hother' => ?_, h.moments, h.once,
    fun other hother hposted id haudit => ?_, fun chat => ?_, ?_⟩
  · rcases List.mem_cons.mp hother with rfl | hold
    · have hsent : message.auditId ∈ world.sent := List.mem_append_right _ (List.mem_map_of_mem hmessage)
      exact absurd (hother'.symm.trans hid) (hbelow _ hsent)
    · exact h.chats message hmessage other hold hother'
  · rcases mem_withAudit hother with ⟨old, -, -, rfl⟩ | ⟨hold, -⟩
    · intro hsent
      exact hbelow id hsent (Option.some.inj haudit).symm
    · exact h.unposted other hold hposted id haudit
  · refine (h.chat chat).cons h hrows hid hdate (fun hsame => ?_) _
    rw [← eq_of_beq hsame]
    exact hchat
  · exact h.hour.cons h hrows hid hdate (fun _ => hhour) _

theorem CallsSound.leave (h : CallsSound world) (thread : ℕ) : CallsSound (world.leave thread) where
  threads := (List.filter_sublist.map Sending.thread).nodup h.threads
  fresh := fun _ hsending => h.fresh _ (mem_leave hsending).1
  own := fun one hone other hother => h.own one (mem_leave hone).1 other (mem_leave hother).1
  live := fun sending hsending => h.live sending (mem_leave hsending).1

theorem AirSound.leave (h : AirSound world) (thread : ℕ) : AirSound (world.leave thread) where
  placed := h.placed
  chats := h.chats
  moments := h.moments
  once := h.once
  unposted := fun sending hsending => h.unposted sending (mem_leave hsending).1
  chat := h.chat
  hour := h.hour

variable [DecidableEq δ] {digest : String → δ}

theorem gateSound_enter (h : GateSound limits world) (hsending : sending ∈ world.sendings) :
    GateSound limits (world.enter limits digest sending) := by
  unfold SendWorld.enter
  split
  next id after hbegin =>
    obtain ⟨hadmits, rfl, rfl⟩ := begin_admitted hbegin
    exact ⟨h.rows.cons hadmits, h.calls.cons h.rows sending.thread rfl (by simp [newAudit])⟩
  next => exact ⟨h.rows, h.calls.leave sending.thread⟩
  next => exact gateSound_raise h hsending ""

theorem airSound_enter (h : AirSound world) (hgate : GateSound limits world) (hnew : sending.auditId = none)
    (hchat : NoneStraddles minuteSpan (· == sending.request.chatId) world)
    (hhour : NoneStraddles hourSpan (fun _ => true) world) : AirSound (world.enter limits digest sending) := by
  unfold SendWorld.enter
  split
  next id after hbegin =>
    obtain ⟨hadmits, rfl, rfl⟩ := begin_admitted hbegin
    exact h.cons hgate.rows sending.thread rfl rfl hchat hhour
  next => exact h.leave sending.thread
  next =>
    refine airSound_raise h "" (fun id hrecords => ?_)
    rw [recordsFailure_audit hrecords] at hnew
    exact absurd hnew (by simp)

end Entering

/-! ## Steps -/

section Steps

theorem gateSound_started (h : GateSound limits world) (request : SendRequest) (slot : Option ℤ) :
    GateSound limits (world.started request slot) := by
  have hnone : ∀ sending ∈ (world.started request slot).sendings, ∀ id, sending.auditId = some id → sending ∈ world.sendings := by
    intro sending hsending id haudit
    rcases List.mem_cons.mp hsending with rfl | hold
    · exact absurd haudit (by simp)
    · exact hold
  refine ⟨h.rows, ?_, fun sending hsending => ?_, fun one hone other hother id hone' hother' => ?_, fun sending hsending id haudit => ?_⟩
  · refine List.nodup_cons.mpr ⟨fun hmem => ?_, h.calls.threads⟩
    obtain ⟨sending, hsending, hthread⟩ := List.mem_map.mp hmem
    exact absurd hthread (Nat.ne_of_lt (h.calls.fresh sending hsending))
  · rcases List.mem_cons.mp hsending with rfl | hold
    · exact Nat.lt_succ_self _
    · exact Nat.lt_succ_of_lt (h.calls.fresh sending hold)
  · exact h.calls.own one (hnone one hone id hone') other (hnone other hother id hother') id hone' hother'
  · exact h.calls.live sending (hnone sending hsending id haudit) id haudit

theorem airSound_started (h : AirSound world) (request : SendRequest) (slot : Option ℤ) :
    AirSound (world.started request slot) where
  placed := h.placed
  chats := h.chats
  moments := h.moments
  once := h.once
  unposted := by
    intro sending hsending hposted id haudit
    rcases List.mem_cons.mp hsending with rfl | hold
    · exact absurd haudit (by simp)
    · exact h.unposted sending hold hposted id haudit
  chat := h.chat
  hour := h.hour

theorem mem_posted {thread : ℕ} {other : Sending}
    (h : other ∈ Keyed.update Sending.thread thread (fun sending => { sending with posted := true }) world.sendings) :
    ∃ old ∈ world.sendings, old.thread = other.thread ∧ old.auditId = other.auditId ∧
      (other.posted = false → old = other ∧ old.thread ≠ thread) := by
  rcases Keyed.mem_update.mp h with ⟨old, hold, hthread, rfl⟩ | ⟨hold, hthread⟩
  · exact ⟨old, hold, rfl, rfl, fun hposted => absurd hposted (by simp)⟩
  · exact ⟨other, hold, rfl, rfl, fun _ => ⟨rfl, hthread⟩⟩

theorem gateSound_post (h : GateSound limits world) (thread id : ℕ) :
    GateSound limits { world with
      inAir := id :: world.inAir
      sendings := Keyed.update Sending.thread thread (fun sending => { sending with posted := true }) world.sendings } := by
  refine ⟨h.rows, nodup_threads h.calls.threads thread _ (fun _ => rfl), fun other hother => ?_,
    fun one hone other hother id hone' hother' => ?_, fun other hother id haudit => ?_⟩
  · obtain ⟨old, hold, hthread, -, -⟩ := mem_posted hother
    rw [← hthread]
    exact h.calls.fresh old hold
  · obtain ⟨first, hfirst, hthread, haudit, -⟩ := mem_posted hone
    obtain ⟨second, hsecond, hthread', haudit', -⟩ := mem_posted hother
    rw [← hthread, ← hthread']
    exact h.calls.own first hfirst second hsecond id (haudit.trans hone') (haudit'.trans hother')
  · obtain ⟨old, hold, -, hsame, -⟩ := mem_posted hother
    exact h.calls.live old hold id (hsame.trans haudit)

theorem airSound_post (h : AirSound world) (hgate : GateSound limits world) {sending : Sending} {id : ℕ}
    (hsending : sending ∈ world.sendings) (haudit : sending.auditId = some id) (hposted : sending.posted = false) :
    AirSound { world with
      inAir := id :: world.inAir
      sendings := Keyed.update Sending.thread sending.thread (fun sending => { sending with posted := true })
        world.sendings } where
  placed := by
    intro other hother
    rcases List.mem_cons.mp hother with rfl | hsent
    · exact hgate.calls.live sending hsending other haudit
    · exact h.placed other hsent
  chats := h.chats
  moments := h.moments
  once := List.nodup_cons.mpr ⟨h.unposted sending hsending hposted id haudit, h.once⟩
  unposted := by
    intro other hother hother' second hsecond hmem
    obtain ⟨old, hold, -, -, hsame⟩ := mem_posted hother
    obtain ⟨rfl, hthread⟩ := hsame hother'
    rcases List.mem_cons.mp hmem with rfl | hsent
    · exact hthread (hgate.calls.own old hold sending hsending second hsecond haudit)
    · exact h.unposted old hold hother' second hsecond hsent
  chat := h.chat
  hour := h.hour

theorem airSound_drop (h : AirSound world) (id : ℕ) : AirSound { world with inAir := world.inAir.erase id } := by
  have hsub : ({ world with inAir := world.inAir.erase id } : SendWorld δ).sent.Sublist world.sent :=
    List.erase_sublist.append_right _
  exact ⟨fun other hother => h.placed other (hsub.subset hother), h.chats, h.moments, hsub.nodup h.once,
    fun sending hsending hposted audit haudit hmem => h.unposted sending hsending hposted audit haudit (hsub.subset hmem),
    h.chat, h.hour⟩

theorem EdgeKept.answer {span : ℤ} {chats : String → Bool} (h : EdgeKept span chats world) {row : AuditRow δ}
    (hlater : NoneLater span chats row.id world) (inAir : List ℕ) :
    EdgeKept span chats
      { world with inAir := inAir, reached := ⟨row.id, row.chatId, world.now⟩ :: world.reached } := by
  intro message hmessage first hfirst hid hchats other hother hcounts hafter
  rcases List.mem_cons.mp hmessage with rfl | hold
  · have hbound := hlater first hfirst hid hchats other hother hcounts
    omega
  · exact h message hold first hfirst hid hchats other hother hcounts hafter

theorem airSound_answer (h : AirSound world) (hrows : RowsSound limits world.now world.rows) {row : AuditRow δ}
    (hrow : row ∈ world.rows) (hair : row.id ∈ world.inAir) (hchat : ∀ chat, NoneLater minuteSpan (· == chat) row.id world)
    (hhour : NoneLater hourSpan (fun _ => true) row.id world) :
    AirSound { world with
      inAir := world.inAir.erase row.id
      reached := ⟨row.id, row.chatId, world.now⟩ :: world.reached } := by
  have hperm : (world.inAir.erase row.id ++ row.id :: world.reached.map Reached.auditId).Perm world.sent :=
    List.perm_middle.trans ((List.perm_cons_erase hair).symm.append_right _)
  refine ⟨fun id hid => h.placed id (hperm.subset hid), fun message hmessage other hother hid => ?_,
    fun message hmessage => ?_, hperm.nodup_iff.mpr h.once,
    fun sending hsending hposted id haudit hmem => h.unposted sending hsending hposted id haudit (hperm.subset hmem),
    fun chat => (h.chat chat).answer (hchat chat) _, h.hour.answer hhour _⟩
  · rcases List.mem_cons.mp hmessage with rfl | hold
    · rw [hrows.row_eq hother hrow hid]
    · exact h.chats message hold other hother hid
  · rcases List.mem_cons.mp hmessage with rfl | hold
    · exact Int.le_refl _
    · exact h.moments message hold

theorem gateSound_reopen (h : GateSound limits world) {sendings : List Sending} (hsub : sendings.Sublist world.sendings)
    (slots : List ℤ) :
    GateSound limits { world with rows := world.rows.map (asUnknown world.now), sendings := sendings, slots := slots } :=
  ⟨h.rows.ended (ends_asUnknown world.now _), h.calls.ended (ends_asUnknown world.now world.rows).id hsub slots
    (fun _ _ _ _ _ _ _ hresult => asUnknown_not_failed world.now hresult)⟩

theorem airSound_reopen (h : AirSound world) {sendings : List Sending} (hsub : sendings.Sublist world.sendings)
    (slots : List ℤ) :
    AirSound { world with rows := world.rows.map (asUnknown world.now), sendings := sendings, slots := slots } :=
  h.ended (ends_asUnknown world.now _) hsub slots (fun _ _ _ _ _ hresult => asUnknown_not_failed world.now hresult)

theorem gateSound_succeed (h : GateSound limits world) {id : ℕ} (hplaced : Placed world.rows id) (thread : ℕ) :
    GateSound limits ({ world with rows := finishSend id true "" world.now world.rows }.leave thread) :=
  ⟨h.rows.ended (ends_accepted h.rows hplaced), h.calls.ended (ends_accepted h.rows hplaced).id List.filter_sublist world.slots
    (fun _ _ _ _ _ _ _ hresult => accepted_not_failed world.now hresult)⟩

theorem airSound_succeed (h : AirSound world) (hrows : RowsSound limits world.now world.rows) {id : ℕ}
    (hplaced : Placed world.rows id) (thread : ℕ) :
    AirSound ({ world with rows := finishSend id true "" world.now world.rows }.leave thread) :=
  h.ended (ends_accepted hrows hplaced) List.filter_sublist world.slots
    (fun _ _ _ _ _ hresult => accepted_not_failed world.now hresult)

variable [DecidableEq δ] (digest : String → δ)

theorem gateSound_step (op : SendOp) (h : GateSound limits world) : GateSound limits (sendStep limits digest op world) := by
  cases op with
  | tick elapsed =>
      have hlater : world.now ≤ world.now + elapsed := by omega
      exact ⟨h.rows.later hlater, h.calls.threads, h.calls.fresh, h.calls.own, h.calls.live⟩
  | restart => exact gateSound_reopen h (List.nil_sublist _) []
  | secondStart => exact gateSound_reopen h (List.Sublist.refl _) world.slots
  | send request => exact gateSound_enter (gateSound_started h request none) List.mem_cons_self
  | reserve chatId text =>
      unfold sendStep
      dsimp only
      split
      next => exact h
      next slots _ =>
        have hslots : GateSound limits { world with slots := slots } :=
          ⟨h.rows, h.calls.threads, h.calls.fresh, h.calls.own, h.calls.live⟩
        exact gateSound_started hslots _ _
  | begin thread =>
      unfold sendStep
      dsimp only
      split
      next => exact h
      next sending hfind =>
        split
        next => exact gateSound_enter h (SendWorld.mem_of_find hfind).1
        next => exact h
  | post thread =>
      unfold sendStep
      dsimp only
      split
      next id _ => exact gateSound_post h thread id
      next => exact h
  | answer id =>
      unfold sendStep
      dsimp only
      split
      next => exact h
      next row hfind =>
        split
        next => exact ⟨h.rows, h.calls.threads, h.calls.fresh, h.calls.own, h.calls.live⟩
        next => exact h
  | drop id => exact ⟨h.rows, h.calls.threads, h.calls.fresh, h.calls.own, h.calls.live⟩
  | succeed thread =>
      unfold sendStep
      dsimp only
      split
      next id _ hfind =>
        split
        next => exact gateSound_succeed h (h.calls.live _ (SendWorld.mem_of_find hfind).1 id rfl) thread
        next => exact h
      next => exact h
  | raise thread error =>
      unfold sendStep
      dsimp only
      split
      next => exact h
      next sending hfind =>
        obtain ⟨hsending, rfl⟩ := SendWorld.mem_of_find hfind
        exact gateSound_raise h hsending error

theorem airSound_step (op : SendOp) (h : AirSound world) (hgate : GateSound limits world) (hfits : SendFits world op) :
    AirSound (sendStep limits digest op world) := by
  cases op with
  | tick elapsed =>
      have hlater : world.now ≤ world.now + elapsed := by omega
      exact ⟨h.placed, h.chats, fun message hmessage => Int.le_trans (h.moments message hmessage) hlater, h.once, h.unposted,
        h.chat, h.hour⟩
  | restart => exact airSound_reopen h (List.nil_sublist _) []
  | secondStart => exact airSound_reopen h (List.Sublist.refl _) world.slots
  | send request =>
      exact airSound_enter (airSound_started h request none) (gateSound_started hgate request none) rfl hfits.1 hfits.2
  | reserve chatId text =>
      unfold sendStep
      dsimp only
      split
      next => exact h
      next slots _ =>
        have hslots : AirSound { world with slots := slots } :=
          ⟨h.placed, h.chats, h.moments, h.once, h.unposted, h.chat, h.hour⟩
        exact airSound_started hslots _ _
  | begin thread =>
      unfold sendStep
      dsimp only
      split
      next => exact h
      next sending hfind =>
        split
        next hnew => exact airSound_enter h hgate hnew (hfits sending hfind).1 (hfits sending hfind).2
        next => exact h
  | post thread =>
      unfold sendStep
      dsimp only
      split
      next id hfind =>
        obtain ⟨hsending, rfl⟩ := SendWorld.mem_of_find hfind
        exact airSound_post h hgate hsending rfl rfl
      next => exact h
  | answer id =>
      unfold sendStep
      dsimp only
      split
      next => exact h
      next row hfind =>
        obtain ⟨hrow, rfl⟩ := Keyed.mem_of_find hfind
        split
        next hair => exact airSound_answer h hgate.rows hrow hair hfits.1 hfits.2
        next => exact h
  | drop id => exact airSound_drop h id
  | succeed thread =>
      unfold sendStep
      dsimp only
      split
      next id _ hfind =>
        split
        next => exact airSound_succeed h hgate.rows (hgate.calls.live _ (SendWorld.mem_of_find hfind).1 id rfl) thread
        next => exact h
      next => exact h
  | raise thread error =>
      unfold sendStep
      dsimp only
      split
      next => exact h
      next sending hfind =>
        obtain ⟨hsending, rfl⟩ := SendWorld.mem_of_find hfind
        refine airSound_raise h error (fun id hrecords hsent => ?_)
        obtain ⟨hair, hreached⟩ := hfits sending hfind id hrecords
        exact (List.mem_append.mp hsent).elim hair hreached

end Steps

/-! ## What the gateway accepted -/

/-- The attempt's message was accepted in the span. -/
def reachedRow (span : ℤ) (chats : String → Bool) (world : SendWorld δ) (row : AuditRow δ) : Bool :=
  chats row.chatId && world.reached.any (fun message => message.auditId == row.id && decide (world.now - span ≤ message.moment))

theorem reachedRow_iff {span : ℤ} {chats : String → Bool} {row : AuditRow δ} : reachedRow span chats world row = true ↔
    chats row.chatId = true ∧ ∃ message ∈ world.reached, message.auditId = row.id ∧ world.now - span ≤ message.moment := by
  unfold reachedRow
  rw [Bool.and_eq_true, List.any_eq_true]
  simp

theorem reachedWithin_le (h : AirSound world) (span : ℤ) (chats : String → Bool) :
    reachedWithin span chats world ≤ world.rows.countP (reachedRow span chats world) := by
  have hnodup : (world.reached.map Reached.auditId).Nodup := (List.sublist_append_right _ _).nodup h.once
  unfold reachedWithin
  rw [List.countP_eq_length_filter, List.countP_eq_length_filter]
  have hids : ((world.reached.filter (fun message => chats message.chatId && decide (world.now - span ≤ message.moment))).map
      Reached.auditId).Nodup := (List.filter_sublist.map _).nodup hnodup
  have hsubset : ∀ id ∈ (world.reached.filter
      (fun message => chats message.chatId && decide (world.now - span ≤ message.moment))).map Reached.auditId,
      id ∈ (world.rows.filter (reachedRow span chats world)).map AuditRow.id := by
    intro id hid
    obtain ⟨message, hmessage, rfl⟩ := List.mem_map.mp hid
    obtain ⟨hmem, hcounted⟩ := List.mem_filter.mp hmessage
    rw [Bool.and_eq_true, decide_eq_true_iff] at hcounted
    obtain ⟨row, hrow, hrowId, -⟩ := h.placed message.auditId (List.mem_append_right _ (List.mem_map_of_mem hmem))
    refine List.mem_map.mpr ⟨row, List.mem_filter.mpr ⟨hrow, reachedRow_iff.mpr ⟨?_, message, hmem, hrowId.symm, hcounted.2⟩⟩, hrowId⟩
    rw [h.chats message hmem row hrow hrowId]
    exact hcounted.1
  have hle := (List.subperm_of_subset hids hsubset).length_le
  rw [List.length_map, List.length_map] at hle
  exact hle

theorem reachedWithin_le_limit (h : AirSound world) (hrows : RowsSound limits world.now world.rows) {span : ℤ}
    {chats : String → Bool} {limit : ℕ}
    (hkept : Windows.Kept AuditRow.createdAt span limit (takesBudget chats) world.rows) (hedge : EdgeKept span chats world) :
    reachedWithin span chats world ≤ limit := by
  have hlive : ∀ row ∈ world.rows, reachedRow span chats world row = true → takesBudget chats row = true := by
    intro row hrow hreached
    obtain ⟨hchats, message, hmessage, hid, -⟩ := reachedRow_iff.mp hreached
    have hplaced := h.placed message.auditId (List.mem_append_right _ (List.mem_map_of_mem hmessage))
    exact takesBudget_iff.mpr ⟨Placed.of_mem hrows hrow (hid ▸ hplaced), hchats⟩
  refine Nat.le_trans (reachedWithin_le h span chats) (hkept.countP_le _ hlive ?_)
  intro newer hnewer older holder hnewer' holder'
  obtain ⟨hchats, message, hmessage, hid, hmoment⟩ := reachedRow_iff.mp holder'
  have hdate := hrows.dates newer hnewer
  by_contra hfar
  have hearlier := hedge message hmessage older holder hid.symm hchats newer hnewer (hlive newer hnewer hnewer') (by omega)
  omega

/-- Of two attempts of one key within its lifetime, the older has failed, and its message neither was accepted nor may have
    been. -/
def KeysFenced (ttl : ℤ) (world : SendWorld δ) : Prop :=
  world.rows.Pairwise (fun newer older => Repeats ttl newer older → older.result = .failed ∧ ¬ MayHaveReached world older)

theorem keysFenced (h : AirSound world) (hrows : RowsSound limits world.now world.rows) :
    KeysFenced limits.idempotencyTtl world := by
  refine hrows.keys.imp_of_mem (fun {newer older} _ holder hfailed hrepeats => ⟨hfailed hrepeats, fun hreached => ?_⟩)
  have hsent : ∀ id ∈ world.sent, id ≠ older.id := by
    rintro id hid rfl
    exact Placed.of_mem hrows holder (h.placed older.id hid) (hfailed hrepeats)
  rcases hreached with hunknown | hair | hreached
  · rw [hfailed hrepeats] at hunknown
    exact absurd hunknown (by simp)
  · exact hsent older.id (List.mem_append_left _ hair) rfl
  · exact hsent older.id (List.mem_append_right _ hreached) rfl

/-! ## Runs -/

structure BudgetSound (limits : SendLimits) (world : SendWorld δ) : Prop where
  gate : GateSound limits world
  air : AirSound world

theorem budgetSound_start (limits : SendLimits) : BudgetSound limits ({} : SendWorld δ) := by
  refine ⟨⟨⟨?_, List.nodup_nil, ?_, fun _ => trivial, trivial, List.Pairwise.nil⟩, List.nodup_nil, ?_, ?_, ?_⟩,
    ?_, ?_, ?_, List.nodup_nil, ?_, fun _ => ?_, ?_⟩
  all_goals
    intro _ hmem
    exact absurd hmem List.not_mem_nil

/-- **In every run that never records an accepted or possibly accepted send as failed, and in which no message is accepted
    across the edge of a window, the messages accepted in the last minute and hour keep the limits, and of the attempts of
    one key within its lifetime only the last may have reached the chat.** -/
theorem send_budget_kept [DecidableEq δ] (limits : SendLimits) (digest : String → δ) (ops : List SendOp)
    (hfits : Driven.Follows (sendStep limits digest) SendFits ops ({} : SendWorld δ)) :
    (∀ chat, reachedWithin minuteSpan (· == chat) (Driven.afterwards (sendStep limits digest) ops {}) ≤ limits.perChatPerMin) ∧
      reachedWithin hourSpan (fun _ => true) (Driven.afterwards (sendStep limits digest) ops {}) ≤ limits.globalPerHour ∧
      KeysFenced limits.idempotencyTtl (Driven.afterwards (sendStep limits digest) ops {}) := by
  have hrun := Driven.run_afterwards ops ({} : SendWorld δ) hfits
  have hsound := hrun.keeps (budgetSound_start limits) (fun world op h hfits =>
    ⟨gateSound_step digest op h.gate, airSound_step digest op h.air h.gate hfits⟩)
  have hrows := hsound.gate.rows
  exact ⟨fun chat => reachedWithin_le_limit hsound.air hrows (hrows.chat chat) (hsound.air.chat chat),
    reachedWithin_le_limit hsound.air hrows hrows.hour hsound.air.hour, keysFenced hsound.air hrows⟩

/-- One text is sent, accepted and recorded. -/
def oneSend (thread : ℕ) (text : String) : List SendOp :=
  [.send { chatId := "oc_a", text := text }, .post thread, .answer (thread + 1), .succeed thread]

theorem send_budget_kept_one :
    reachedWithin minuteSpan (· == "oc_a") (Driven.afterwards (sendStep (sendLimits 6 120 86400) id) (oneSend 0 "m") {}) ≤ 6 := by
  refine (send_budget_kept (sendLimits 6 120 86400) id (oneSend 0 "m") ⟨⟨?_, ?_⟩, trivial, ⟨fun _ => ?_, ?_⟩, trivial, trivial⟩).1 "oc_a"
  · exact fun _ hmessage => absurd hmessage List.not_mem_nil
  · exact fun _ hmessage => absurd hmessage List.not_mem_nil
  · rintro row hrow - - other hother -
    rw [List.mem_singleton.mp hrow, List.mem_singleton.mp hother]
    decide
  · rintro row hrow - - other hother -
    rw [List.mem_singleton.mp hrow, List.mem_singleton.mp hother]
    decide

/-- An urgent text that was accepted before a later step raised is recorded as failed, and six more are accepted in the
    same minute. -/
theorem accepted_send_frees_budget : ¬ ∀ (ops : List SendOp) (chat : String),
    reachedWithin minuteSpan (· == chat) (Driven.afterwards (sendStep (sendLimits 6 120 86400) id) ops {}) ≤ 6 := by
  intro h
  have hseven := h ([.reserve "oc_a" "urgent", .begin 0, .post 0, .answer 1, .raise 0 "发送后未找到唯一的对应消息，未执行加急"] ++
    (List.range 6).flatMap (fun sends => oneSend (sends + 1) "m")) "oc_a"
  exact absurd hseven (by decide +kernel)

end Budget

end TradingHarness.SendGate
