import Mathlib.Logic.Relation
import TradingHarness.Relay.DeliveryCheck

set_option autoImplicit false

/-! # A recall removes its own copies

Two messages with one beginning have one fingerprint. Where an observation is looked up before its own delivery is
recorded, the record of the other message can be the only candidate. -/

namespace TradingHarness

variable {δ : Type} [DecidableEq δ] (digest : List Char → δ)

/-! ## Runs -/

/-- The message is the one that the send has produced. -/
def Produced (world : CheckWorld δ) (send : ℕ) (messageId : List Char) : Prop :=
  ∃ sent, world.sends[send]? = some sent ∧ sent.produced = messageId

/-- A send produces a message of its own, and is recorded at most once. -/
def Happens (world : CheckWorld δ) : CheckOp → Prop
  | .send sent => sent.produced ∉ world.sends.map WebhookSend.produced
  | .record send _ => send ∉ world.rows.map DeliveryRow.send
  | _ => True

/-- Where an observation is looked up, the record of its own send is among the candidates, or no record is. -/
def OwnRecordFirst (world : CheckWorld δ) : CheckOp → Prop
  | .lookup message targets => candidates digest world message targets = [] ∨
      ∃ row ∈ candidates digest world message targets, Produced world row.send message.messageId
  | _ => True

def CheckRun (allowed : CheckWorld δ → CheckOp → Prop) : CheckWorld δ → CheckWorld δ → Prop :=
  Relation.ReflTransGen (fun before after =>
    ∃ op, Happens before op ∧ allowed before op ∧ after = checkStep digest op before)

/-- Every matched row has the message that its send has produced, no message is matched to two rows, and every
    recall was asked for a message that a send for its source message has produced. -/
structure OwnCopies (world : CheckWorld δ) : Prop where
  matched : ∀ row ∈ world.rows, ∀ messageId, row.targetMessageId = some messageId →
    Produced world row.send messageId
  unique : ∀ first ∈ world.rows, ∀ second ∈ world.rows, first.targetMessageId.isSome = true →
    first.targetMessageId = second.targetMessageId → first = second
  asked : ∀ taken ∈ world.asked, ∀ sent ∈ world.sends, sent.produced = taken.2 → sent.sourceMessageId = taken.1

/-! ## The invariant -/

/-- The message was produced by a send for the source message. -/
def ProducedFor (world : CheckWorld δ) (sourceMessageId messageId : List Char) : Prop :=
  ∃ (send : ℕ) (sent : WebhookSend), world.sends[send]? = some sent ∧ sent.produced = messageId ∧
    sent.sourceMessageId = sourceMessageId

structure CheckSound (world : CheckWorld δ) : Prop where
  produced : (world.sends.map WebhookSend.produced).Nodup
  sources : ∀ row ∈ world.rows, ∃ sent, world.sends[row.send]? = some sent ∧
    sent.sourceMessageId = row.sourceMessageId
  sends : (world.rows.map DeliveryRow.send).Nodup
  ids : (world.rows.map DeliveryRow.deliveryId).Nodup
  fresh : ∀ row ∈ world.rows, row.deliveryId < world.nextId
  matched : ∀ row ∈ world.rows, ∀ messageId, row.targetMessageId = some messageId →
    Produced world row.send messageId
  found : ∀ candidate ∈ world.found, candidate.deliveryId < world.nextId ∧
    ∀ row ∈ world.rows, row.deliveryId = candidate.deliveryId → Produced world row.send candidate.messageId
  recalls : ∀ taken ∈ world.recalls, ProducedFor world taken.sourceMessageId taken.targetMessageId
  asked : ∀ taken ∈ world.asked, ProducedFor world taken.1 taken.2

variable {digest} {world : CheckWorld δ}

omit [DecidableEq δ] in
theorem produced_unique (hproduced : (world.sends.map WebhookSend.produced).Nodup) {first second : ℕ}
    {one other : WebhookSend} (hone : world.sends[first]? = some one) (hother : world.sends[second]? = some other)
    (hsame : one.produced = other.produced) : first = second ∧ one = other := by
  have hfirst : (world.sends.map WebhookSend.produced)[first]? = some one.produced := by
    rw [List.getElem?_map, hone]
    rfl
  have hsecond : (world.sends.map WebhookSend.produced)[second]? = some one.produced := by
    rw [List.getElem?_map, hother, hsame]
    rfl
  have hlt : first < (world.sends.map WebhookSend.produced).length := (List.getElem?_eq_some_iff.mp hfirst).1
  have hindex : first = second := (List.getElem?_inj hlt hproduced).mp (hfirst.trans hsecond.symm)
  subst hindex
  exact ⟨rfl, Option.some.inj (hone.symm.trans hother)⟩

omit [DecidableEq δ] in
theorem CheckSound.ownCopies (h : CheckSound world) : OwnCopies world := by
  refine ⟨h.matched, ?_, ?_⟩
  · intro first hfirst second hsecond hsome hsame
    obtain ⟨messageId, hmessage⟩ := Option.isSome_iff_exists.mp hsome
    obtain ⟨one, hone, hproduced⟩ := h.matched first hfirst messageId hmessage
    obtain ⟨other, hother, hother'⟩ := h.matched second hsecond messageId (hsame ▸ hmessage)
    have hsend := (produced_unique h.produced hone hother (hproduced.trans hother'.symm)).1
    exact List.inj_on_of_nodup_map h.sends hfirst hsecond hsend
  · rintro taken hrecall sent hsent hmessage
    obtain ⟨send, other, hother, hproduced, hsource⟩ := h.asked taken hrecall
    obtain ⟨place, hplace⟩ := List.mem_iff_getElem?.mp hsent
    obtain ⟨-, rfl⟩ := produced_unique h.produced hplace hother (hmessage.trans hproduced.symm)
    exact hsource

/-! ## Steps -/

omit [DecidableEq δ] in
theorem sends_concat {send : ℕ} {sent : WebhookSend} (h : world.sends[send]? = some sent) (last : WebhookSend) :
    (world.sends ++ [last])[send]? = some sent := by
  rw [List.getElem?_append_left (List.getElem?_eq_some_iff.mp h).1]
  exact h

omit [DecidableEq δ] in
theorem checkSound_send (h : CheckSound world) (sent : WebhookSend)
    (hfresh : sent.produced ∉ world.sends.map WebhookSend.produced) :
    CheckSound { world with sends := world.sends ++ [sent] } := by
  have hkeep : ∀ send messageId, Produced world send messageId →
      Produced { world with sends := world.sends ++ [sent] } send messageId := by
    rintro send messageId ⟨other, hother, hmessage⟩
    exact ⟨other, sends_concat hother sent, hmessage⟩
  have hkeepFor : ∀ source messageId, ProducedFor world source messageId →
      ProducedFor { world with sends := world.sends ++ [sent] } source messageId := by
    rintro source messageId ⟨send, other, hother, hmessage⟩
    exact ⟨send, other, sends_concat hother sent, hmessage⟩
  refine ⟨?_, ?_, h.sends, h.ids, h.fresh, ?_, ?_, ?_, ?_⟩
  · rw [List.map_append]
    refine List.nodup_append.mpr ⟨h.produced, List.nodup_singleton _, ?_⟩
    intro message hmessage other hother hsame
    rw [List.mem_singleton.mp hother] at hsame
    exact hfresh (hsame ▸ hmessage)
  · intro row hrow
    obtain ⟨other, hother, hsource⟩ := h.sources row hrow
    exact ⟨other, sends_concat hother sent, hsource⟩
  · exact fun row hrow messageId hmessage => hkeep _ _ (h.matched row hrow messageId hmessage)
  · exact fun candidate hcandidate => ⟨(h.found candidate hcandidate).1,
      fun row hrow hid => hkeep _ _ ((h.found candidate hcandidate).2 row hrow hid)⟩
  · exact fun taken hrecall => hkeepFor _ _ (h.recalls taken hrecall)
  · exact fun taken hrecall => hkeepFor _ _ (h.asked taken hrecall)

omit [DecidableEq δ] in
theorem checkSound_record (h : CheckSound world) (index : ℕ) (targets : List TargetGroup) {sent : WebhookSend}
    (hsent : world.sends[index]? = some sent) (hfresh : index ∉ world.rows.map DeliveryRow.send) :
    CheckSound { world with
      rows := world.rows ++ [deliveryRow digest world index sent targets]
      nextId := world.nextId + 1 } := by
  have hcases : ∀ row ∈ world.rows ++ [deliveryRow digest world index sent targets],
      row ∈ world.rows ∨ row = deliveryRow digest world index sent targets := by
    intro row hrow
    exact (List.mem_append.mp hrow).imp_right List.mem_singleton.mp
  have hnodup : ∀ {β : Type} (read : DeliveryRow δ → β), (world.rows.map read).Nodup →
      read (deliveryRow digest world index sent targets) ∉ world.rows.map read →
      ((world.rows ++ [deliveryRow digest world index sent targets]).map read).Nodup := by
    intro β read hold hnew
    rw [List.map_append]
    refine List.nodup_append.mpr ⟨hold, List.nodup_singleton _, ?_⟩
    intro value hvalue other hother hsame
    rw [List.mem_singleton.mp hother] at hsame
    exact hnew (hsame ▸ hvalue)
  refine ⟨h.produced, ?_, hnodup _ h.sends hfresh, hnodup _ h.ids ?_, ?_, ?_, ?_, h.recalls, h.asked⟩
  · intro row hrow
    rcases hcases row hrow with hold | rfl
    · exact h.sources row hold
    · exact ⟨sent, hsent, rfl⟩
  · intro hmem
    obtain ⟨row, hrow, hid⟩ := List.mem_map.mp hmem
    exact absurd (h.fresh row hrow) (by rw [hid]; exact Nat.lt_irrefl _)
  · intro row hrow
    rcases hcases row hrow with hold | rfl
    · exact Nat.lt_succ_of_lt (h.fresh row hold)
    · exact Nat.lt_succ_self _
  · intro row hrow messageId hmessage
    rcases hcases row hrow with hold | rfl
    · exact h.matched row hold messageId hmessage
    · exact absurd hmessage.symm (Option.some_ne_none messageId)
  · intro candidate hcandidate
    obtain ⟨hlt, hfound⟩ := h.found candidate hcandidate
    refine ⟨Nat.lt_succ_of_lt hlt, fun row hrow hid => ?_⟩
    rcases hcases row hrow with hold | rfl
    · exact hfound row hold hid
    · exact absurd hlt (by rw [← hid]; exact Nat.lt_irrefl _)

omit [DecidableEq δ] in
/-- A change of the rows of one delivery that leaves what they record. -/
theorem checkSound_update (h : CheckSound world) (deliveryId : ℕ) (change : DeliveryRow δ → DeliveryRow δ)
    (hkeep : ∀ row, (change row).deliveryId = row.deliveryId ∧ (change row).send = row.send ∧
      (change row).sourceMessageId = row.sourceMessageId)
    (hmatched : ∀ row ∈ world.rows, row.deliveryId = deliveryId → ∀ messageId,
      (change row).targetMessageId = some messageId → Produced world row.send messageId) :
    CheckSound { world with rows := updateDelivery deliveryId change world.rows } := by
  have hcases : ∀ row ∈ updateDelivery deliveryId change world.rows, ∃ old ∈ world.rows,
      row.deliveryId = old.deliveryId ∧ row.send = old.send ∧ row.sourceMessageId = old.sourceMessageId ∧
      ∀ messageId, row.targetMessageId = some messageId → Produced world old.send messageId := by
    intro row hrow
    rcases Keyed.mem_update.mp hrow with ⟨old, hold, hid, rfl⟩ | ⟨hold, -⟩
    · exact ⟨old, hold, (hkeep old).1, (hkeep old).2.1, (hkeep old).2.2, hmatched old hold hid⟩
    · exact ⟨row, hold, rfl, rfl, rfl, h.matched row hold⟩
  have hmap : ∀ {β : Type} (read : DeliveryRow δ → β), (∀ row, read (change row) = read row) →
      (updateDelivery deliveryId change world.rows).map read = world.rows.map read :=
    fun read hread => Keyed.map_update change read (fun row _ _ => hread row)
  refine ⟨h.produced, ?_, ?_, ?_, ?_, ?_, ?_, h.recalls, h.asked⟩
  · intro row hrow
    obtain ⟨old, hold, -, hsend, hsource, -⟩ := hcases row hrow
    rw [hsend, hsource]
    exact h.sources old hold
  · rw [hmap DeliveryRow.send (fun row => (hkeep row).2.1)]
    exact h.sends
  · rw [hmap DeliveryRow.deliveryId (fun row => (hkeep row).1)]
    exact h.ids
  · intro row hrow
    obtain ⟨old, hold, hid, -⟩ := hcases row hrow
    rw [hid]
    exact h.fresh old hold
  · intro row hrow messageId hmessage
    obtain ⟨old, hold, -, hsend, -, hproduced⟩ := hcases row hrow
    rw [hsend]
    exact hproduced messageId hmessage
  · intro candidate hcandidate
    refine ⟨(h.found candidate hcandidate).1, fun row hrow hrowId => ?_⟩
    obtain ⟨old, hold, hid, hsend, -, -⟩ := hcases row hrow
    rw [hsend]
    exact (h.found candidate hcandidate).2 old hold (hid ▸ hrowId)

theorem mem_candidates {message : ObservedMessage} {targets : List TargetGroup} {row : DeliveryRow δ}
    (h : row ∈ candidates digest world message targets) : row ∈ world.rows := by
  unfold candidates at h
  split at h
  · exact (List.mem_filter.mp h).1
  · exact absurd h List.not_mem_nil

section

variable (h : CheckSound world)

include h

theorem checkSound_lookup (message : ObservedMessage) (targets : List TargetGroup)
    (hown : OwnRecordFirst digest world (.lookup message targets)) :
    CheckSound (checkStep digest (.lookup message targets) world) := by
  unfold checkStep
  dsimp only
  split
  · split
    next row hrow =>
      -- the one candidate is the record of the send that has produced the message
      obtain ⟨hmem, hproduced⟩ : row ∈ world.rows ∧ Produced world row.send message.messageId := by
        rcases hown with hnone | ⟨other, hother, hproduced⟩
        · rw [hrow] at hnone
          exact absurd hnone (List.cons_ne_nil row [])
        · rw [hrow] at hother
          obtain rfl := List.mem_singleton.mp hother
          exact ⟨mem_candidates (by rw [hrow]; exact hother), hproduced⟩
      refine ⟨h.produced, h.sources, h.sends, h.ids, h.fresh, h.matched, ?_, h.recalls, h.asked⟩
      intro candidate hcandidate
      rcases List.mem_cons.mp hcandidate with rfl | hold
      · refine ⟨h.fresh row hmem, fun other hother hid => ?_⟩
        rw [List.inj_on_of_nodup_map h.ids hother hmem hid]
        exact hproduced
      · exact h.found candidate hold
    next =>
      exact ⟨h.produced, h.sources, h.sends, h.ids, h.fresh, h.matched, h.found, h.recalls, h.asked⟩
  · exact h

theorem checkSound_write (candidate : FoundCandidate) :
    CheckSound (checkStep digest (.write candidate) world) := by
  unfold checkStep
  dsimp only
  split
  next hcandidate =>
    have hupdated := checkSound_update h candidate.deliveryId (matchRow candidate) (fun row => by
        unfold matchRow
        split <;> exact ⟨rfl, rfl, rfl⟩) (fun row hrow hid messageId hmessage => by
        unfold matchRow at hmessage
        split at hmessage
        · obtain rfl := Option.some.inj hmessage
          exact (h.found candidate hcandidate).2 row hrow hid
        · exact h.matched row hrow messageId hmessage)
    exact ⟨hupdated.produced, hupdated.sources, hupdated.sends, hupdated.ids, hupdated.fresh, hupdated.matched,
      fun other hother => hupdated.found other (List.mem_of_mem_erase hother), hupdated.recalls, hupdated.asked⟩
  next => exact h

theorem checkSound_recall (sourceMessageId : List Char) :
    CheckSound (checkStep digest (.startRecall sourceMessageId) world) := by
  refine ⟨h.produced, h.sources, h.sends, h.ids, h.fresh, h.matched, h.found, ?_, h.asked⟩
  intro taken hrecall
  rcases List.mem_append.mp hrecall with hnew | hold
  · obtain ⟨row, hrow, hread⟩ := List.mem_filterMap.mp hnew
    split at hread
    next hsource =>
      obtain ⟨messageId, hmessage, rfl⟩ := Option.map_eq_some_iff.mp hread
      obtain ⟨sent, hsent, hproduced⟩ := h.matched row hrow messageId hmessage
      obtain ⟨other, hother, hsame⟩ := h.sources row hrow
      obtain rfl := Option.some.inj (hsent.symm.trans hother)
      exact ⟨row.send, sent, hsent, hproduced, hsame.trans hsource.1⟩
    next => exact absurd hread.symm (Option.some_ne_none taken)
  · exact h.recalls taken hold

theorem checkSound_recallNext (row : RecallRow) (targets : List TargetGroup)
    (answer : Except String Unit) : CheckSound (checkStep digest (.recallNext row targets answer) world) := by
  have herase : CheckSound { world with recalls := world.recalls.erase row } :=
    ⟨h.produced, h.sources, h.sends, h.ids, h.fresh, h.matched, h.found,
      fun taken hrecall => h.recalls taken (List.mem_of_mem_erase hrecall), h.asked⟩
  unfold checkStep
  dsimp only
  split
  next hrow =>
    split
    · split
      · have hupdated := checkSound_update herase row.deliveryId (recalledRow world.now answer) (fun old => by
            unfold recalledRow
            split <;> exact ⟨rfl, rfl, rfl⟩) (fun old hold hid messageId hmessage => by
            refine h.matched old hold messageId ?_
            unfold recalledRow at hmessage
            split at hmessage <;> exact hmessage)
        refine ⟨hupdated.produced, hupdated.sources, hupdated.sends, hupdated.ids, hupdated.fresh,
          hupdated.matched, hupdated.found, hupdated.recalls, ?_⟩
        intro taken hrecall
        rcases List.mem_cons.mp hrecall with rfl | hold
        · exact h.recalls row hrow
        · exact h.asked taken hold
      · exact herase
    · exact herase
  next => exact h

theorem checkSound_step (op : CheckOp) (hhappens : Happens world op)
    (hown : OwnRecordFirst digest world op) : CheckSound (checkStep digest op world) := by
  cases op with
  | wait duration =>
      exact ⟨h.produced, h.sources, h.sends, h.ids, h.fresh, h.matched, h.found, h.recalls, h.asked⟩
  | send sent => exact checkSound_send h sent hhappens
  | record index targets =>
      unfold checkStep
      dsimp only
      split
      next sent hsent =>
        split
        · exact checkSound_record h index targets hsent hhappens
        · exact h
      next => exact h
  | observe message =>
      unfold checkStep
      dsimp only
      split
      · exact h
      · exact ⟨h.produced, h.sources, h.sends, h.ids, h.fresh, h.matched, h.found, h.recalls, h.asked⟩
  | lookup message targets => exact checkSound_lookup h message targets hown
  | write candidate => exact checkSound_write h candidate
  | startRecall sourceMessageId => exact checkSound_recall h sourceMessageId
  | recallNext row targets answer => exact checkSound_recallNext h row targets answer

end

omit [DecidableEq δ] in
theorem checkSound_empty (now : ℤ) : CheckSound (δ := δ) { now := now } :=
  ⟨List.nodup_nil, nofun, List.nodup_nil, List.nodup_nil, nofun, nofun, nofun, nofun, nofun⟩

/-- **A recall removes only its own copies**: where own records come first, every matched message is the one its
    delivery has produced, none is matched twice, and no recall asks for the copy of another source message. -/
theorem recalls_own_copies (now : ℤ) (hrun : CheckRun digest (OwnRecordFirst digest) { now := now } world) :
    OwnCopies world := by
  have hsound : CheckSound world := by
    induction hrun with
    | refl => exact checkSound_empty now
    | tail _ hstep ih =>
        obtain ⟨op, hhappens, hown, rfl⟩ := hstep
        exact checkSound_step ih op hhappens hown
  exact hsound.ownCopies

/-! ## A record that comes late -/

def ownedTarget : TargetGroup := { chatId := ['w'], websocketChatId := ['7'], owned := true }

/-- Two messages of one text are sent to one group. -/
def twinSend (source produced : Char) : WebhookSend :=
  { sourceMessageId := [source], targetChatId := ['w'], isText := true, text := ['x'], produced := [produced] }

def twinObserved (produced : Char) : ObservedMessage :=
  { chatId := ['7'], messageId := [produced], isText := true, text := ['x'] }

def checkAfter (ops : List CheckOp) (world : CheckWorld (List Char)) : CheckWorld (List Char) :=
  ops.foldl (fun world op => checkStep id op world) world

/-- Only the first is recorded; the second is recorded once its message was looked up. -/
def lateRecord : List CheckOp :=
  [.send (twinSend 'a' '1'), .record 0 [ownedTarget], .send (twinSend 'b' '2'), .observe (twinObserved '2'),
    .lookup (twinObserved '2') [ownedTarget], .write ⟨['2'], 0, 0⟩, .record 1 [ownedTarget]]

/-- One message is sent, recorded, observed and matched. -/
def promptRecord : List CheckOp :=
  [.send (twinSend 'a' '1'), .record 0 [ownedTarget], .observe (twinObserved '1'),
    .lookup (twinObserved '1') [ownedTarget], .write ⟨['1'], 0, 0⟩]

def stepsFrom (allowed : CheckWorld (List Char) → CheckOp → Prop) :
    List CheckOp → CheckWorld (List Char) → Prop
  | [], _ => True
  | op :: rest, world => (Happens world op ∧ allowed world op) ∧ stepsFrom allowed rest (checkStep id op world)

theorem run_checkAfter {allowed : CheckWorld (List Char) → CheckOp → Prop} (ops : List CheckOp)
    (world : CheckWorld (List Char)) (h : stepsFrom allowed ops world) :
    CheckRun id allowed world (checkAfter ops world) := by
  induction ops generalizing world with
  | nil => exact Relation.ReflTransGen.refl
  | cons op rest ih => exact Relation.ReflTransGen.head ⟨op, h.1.1, h.1.2, rfl⟩ (ih _ h.2)

theorem recalls_own_copies_prompt : OwnCopies (checkAfter promptRecord {}) := by
  refine recalls_own_copies 0 (run_checkAfter promptRecord {} ?_)
  refine ⟨⟨?_, trivial⟩, ⟨?_, trivial⟩, ⟨trivial, trivial⟩, ⟨trivial, ?_⟩, ⟨trivial, trivial⟩, trivial⟩
  · exact List.not_mem_nil
  · exact List.not_mem_nil
  · exact Or.inr ⟨_, List.mem_singleton_self _, _, rfl, rfl⟩

/-- The second message is matched to the record of the first, and recalling the first source message asks for the
    second message. -/
theorem late_record_is_recalled : ∃ world, CheckRun id (fun _ _ => True) {} world ∧
    (∃ row ∈ world.rows, row.send = 0 ∧ row.targetMessageId = some ['2'] ∧ ¬ Produced world 0 ['2']) ∧
    (['a'], ['2']) ∈ world.asked ∧ ¬ OwnCopies world := by
  have hrun : CheckRun id (fun _ _ => True) {} (checkAfter (lateRecord ++ [.startRecall ['a'],
      .recallNext ⟨['a'], 0, ['w'], ['2']⟩ [ownedTarget] (.ok ())]) {}) := by
    refine run_checkAfter _ {} ?_
    refine ⟨⟨?_, trivial⟩, ⟨?_, trivial⟩, ⟨?_, trivial⟩, ⟨trivial, trivial⟩, ⟨trivial, trivial⟩,
      ⟨trivial, trivial⟩, ⟨?_, trivial⟩, ⟨trivial, trivial⟩, ⟨trivial, trivial⟩, trivial⟩
    · exact List.not_mem_nil
    · exact List.not_mem_nil
    · change ['2'] ∉ [['1']]
      decide
    · change 1 ∉ [0]
      decide
  have hproduced : ¬ Produced (checkAfter (lateRecord ++ [.startRecall ['a'],
      .recallNext ⟨['a'], 0, ['w'], ['2']⟩ [ownedTarget] (.ok ())]) {}) 0 ['2'] := by
    rintro ⟨sent, hsent, hmessage⟩
    obtain rfl := Option.some.inj hsent
    exact absurd hmessage (by decide)
  have hrow : ∃ row ∈ (checkAfter (lateRecord ++ [.startRecall ['a'],
      .recallNext ⟨['a'], 0, ['w'], ['2']⟩ [ownedTarget] (.ok ())]) {}).rows,
        row.send = 0 ∧ row.targetMessageId = some ['2'] := by
    decide +kernel
  obtain ⟨row, hmem, hsend, hmessage⟩ := hrow
  refine ⟨_, hrun, ⟨row, hmem, hsend, hmessage, hproduced⟩, by decide +kernel, fun hown => hproduced ?_⟩
  have hmatched := hown.matched row hmem ['2'] hmessage
  rwa [hsend] at hmatched

end TradingHarness
