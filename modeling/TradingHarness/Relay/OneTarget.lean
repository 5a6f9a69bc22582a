import TradingHarness.Relay.WebhookTargets
import Mathlib.Data.List.Induction

set_option autoImplicit false

/-! # One address, one target, one group

When the maps of the process are the rows of the ledger, and which steps of the calls keep that. -/

namespace TradingHarness.Webhooks

/-! ## What should hold -/

/-- The maps have of an id what its row says. -/
def Agrees (rows : List (String × Target)) (maps : Maps) (chatId : String) : Prop :=
  match rows.lookup chatId with
  | none => maps.webhooks.lookup chatId = none ∧ maps.stored.lookup chatId = none ∧ maps.unreadable.lookup chatId = none
  | some target =>
      match target.address with
      | some url => maps.webhooks.lookup chatId = some url ∧ maps.keywords.lookup chatId = some target.keyword ∧
          maps.stored.lookup chatId = some target.meta ∧ maps.unreadable.lookup chatId = none
      | none => maps.webhooks.lookup chatId = none ∧ maps.stored.lookup chatId = none ∧
          maps.unreadable.lookup chatId = some target.chatName

/-- The rows of the ledger: their addresses and groups are their own, and not the environment's. -/
structure RowsSound (env : List (String × String)) (rows : List (String × Target)) : Prop where
  ids : ∀ chatId target, rows.lookup chatId = some target → chatId ∉ envIds env
  addresses : ∀ chatId target chatId' target' url, rows.lookup chatId = some target → rows.lookup chatId' = some target' →
    target.address = some url → target'.address = some url → chatId = chatId'
  environment : ∀ chatId target envId url, rows.lookup chatId = some target → target.address = some url →
    env.lookup envId ≠ some url
  groups : ∀ chatId target chatId' target' wsId, rows.lookup chatId = some target → rows.lookup chatId' = some target' →
    target.websocketChatId = some wsId → target'.websocketChatId = some wsId → chatId = chatId'

/-- What holds of the targets while no call is in progress. -/
structure Sound (env : List (String × String)) (world : World) : Prop where
  /-- No two usable targets have the same address. -/
  addresses : ∀ chatId chatId' url, world.maps.webhooks.lookup chatId = some url → world.maps.webhooks.lookup chatId' = some url →
    chatId = chatId'
  /-- No two dashboard targets have the same group; of an unreadable one the ledger knows it. -/
  groups : ∀ chatId target chatId' target' wsId, world.rows.lookup chatId = some target → world.rows.lookup chatId' = some target' →
    target.websocketChatId = some wsId → target'.websocketChatId = some wsId → chatId = chatId'
  /-- The maps are the ledger. -/
  memory : ∀ chatId ∉ envIds env, Agrees world.rows world.maps chatId
  /-- What was removed and not added since is in neither. -/
  gone : ∀ chatId ∈ world.gone, world.rows.lookup chatId = none ∧ world.maps.webhooks.lookup chatId = none ∧
    world.maps.stored.lookup chatId = none ∧ world.maps.unreadable.lookup chatId = none

/-! ## Calls that have changed the ledger -/

/-- The id whose row a call has changed, and whose maps it is to change. -/
def Call.changed : Call → Option String
  | .saved chatId _ => some chatId
  | .deleted chatId => some chatId
  | _ => none

/-- A call is still to bring an id's maps up to date. -/
def Pending (calls : List Call) (chatId : String) : Prop := ∃ call ∈ calls, call.changed = some chatId

instance (calls : List Call) (chatId : String) : Decidable (Pending calls chatId) :=
  inferInstanceAs (Decidable (∃ call ∈ calls, call.changed = some chatId))

/-- The id of a target that a call is to remove, or whose row it has changed. -/
def Call.target : Call → Option String
  | .removingBot chatId => some chatId
  | .deleting chatId => some chatId
  | call => call.changed

/-- A row that may be written: it takes no other target's address or group, and no removed target's place. -/
structure MayWrite (env : List (String × String)) (world : World) (chatId : String) (target : Target) : Prop where
  id : chatId ∉ envIds env
  present : chatId ∉ world.gone
  address : ∀ row ∈ world.rows, row.1 ≠ chatId → target.address.isSome → row.2.address ≠ target.address
  environment : ∀ entry ∈ env, target.address ≠ some entry.2
  group : ∀ row ∈ world.rows, row.1 ≠ chatId → target.websocketChatId.isSome → row.2.websocketChatId ≠ target.websocketChatId

variable (env : List (String × String)) (world : World) (n : ℕ)

/-- The maps may be given what a call knows of an id: it is what the ledger has, or another call is still to change them. -/
def MayApply (chatId : String) (target : Target) : Prop :=
  world.rows.lookup chatId = some target ∨ Pending (world.calls.eraseIdx n) chatId

instance (env : List (String × String)) (world : World) (chatId : String) (target : Target) :
    Decidable (MayWrite env world chatId target) :=
  decidable_of_iff (_ ∧ _ ∧ _ ∧ _ ∧ _)
    ⟨fun ⟨hid, hpresent, haddress, henvironment, hgroup⟩ => ⟨hid, hpresent, haddress, henvironment, hgroup⟩,
      fun h => ⟨h.id, h.present, h.address, h.environment, h.group⟩⟩

instance (world : World) (n : ℕ) (chatId : String) (target : Target) : Decidable (MayApply world n chatId target) :=
  inferInstanceAs (Decidable (_ ∨ _))

/-- What a call may have the ledger do. -/
def MayLedger : Option Call → Prop
  | some (.saving chatId target) => MayWrite env world chatId target
  | _ => True

/-- What a call may do with the ledger's answer. -/
def MayReply : Option Call → Prop
  | some (.saved chatId target) => MayApply world n chatId target
  | some (.deleted chatId) => world.rows.lookup chatId = none
  | some (.loaded rows) => ∀ row ∈ rows, row.1 ∉ envIds env → MayApply world n row.1 row.2
  | _ => True

/-- The steps that keep the targets sound. -/
def Allowed (op : Op) : Prop :=
  match op with
  | .ledger n true => MayLedger env world world.calls[n]?
  | .reply n => MayReply env world n world.calls[n]?
  | _ => True

instance decidableMayLedger (env : List (String × String)) (world : World) (call : Option Call) :
    Decidable (MayLedger env world call) :=
  match call with
  | some (.saving chatId target) => inferInstanceAs (Decidable (MayWrite env world chatId target))
  | none | some (.ensuring ..) | some (.adopting ..) | some (.testing ..) | some (.saved ..) | some (.removingBot _)
  | some (.deleting _) | some (.deleted _) | some .loading | some (.loaded _) => isTrue trivial

instance decidableMayReply (env : List (String × String)) (world : World) (n : ℕ) (call : Option Call) :
    Decidable (MayReply env world n call) :=
  match call with
  | some (.saved chatId target) => inferInstanceAs (Decidable (MayApply world n chatId target))
  | some (.deleted chatId) => inferInstanceAs (Decidable (world.rows.lookup chatId = none))
  | some (.loaded rows) => inferInstanceAs (Decidable (∀ row ∈ rows, row.1 ∉ envIds env → MayApply world n row.1 row.2))
  | none | some (.ensuring ..) | some (.adopting ..) | some (.testing ..) | some (.saving ..) | some (.removingBot _)
  | some (.deleting _) | some .loading => isTrue trivial

instance decidableAllowed (env : List (String × String)) (world : World) (op : Op) : Decidable (Allowed env world op) :=
  match op with
  | .ledger n true => inferInstanceAs (Decidable (MayLedger env world world.calls[n]?))
  | .reply n => inferInstanceAs (Decidable (MayReply env world n world.calls[n]?))
  | .ledger _ false | .add .. | .addManaged .. | .addExisting .. | .remove .. | .load | .bot .. | .tested .. | .botRemoved _ =>
      isTrue trivial

/-! ## The invariant -/

/-- The targets of the environment have addresses of their own. -/
def EnvSound : Prop :=
  ∀ chatId chatId' url, env.lookup chatId = some url → env.lookup chatId' = some url → chatId = chatId'

/-- A call that writes or removes no target of the environment, and writes an address. -/
structure Call.Proper (env : List (String × String)) (call : Call) : Prop where
  target : ∀ chatId ∈ call.target, chatId ∉ envIds env
  address : ∀ chatId target, call = .testing chatId target ∨ call = .saving chatId target ∨ call = .saved chatId target →
    target.address.isSome = true

structure Inv (env : List (String × String)) (world : World) : Prop where
  rows : RowsSound env world.rows
  environment : ∀ chatId ∈ envIds env, world.maps.webhooks.lookup chatId = env.lookup chatId
  maps : ∀ chatId ∉ envIds env, Agrees world.rows world.maps chatId ∨ Pending world.calls chatId
  calls : ∀ call ∈ world.calls, call.Proper env
  gone : ∀ chatId ∈ world.gone, chatId ∉ envIds env ∧ world.rows.lookup chatId = none

variable {chatId : String} {n : ℕ} {call : Call} {rows : List (String × Target)}

section Steps

variable {env : List (String × String)} {world : World}

/-- **Without a call in progress the invariant is what should hold.** -/
theorem Inv.sound (h : Inv env world) (henv : EnvSound env) (hidle : world.calls = []) : Sound env world := by
  have hmemory : ∀ chatId ∉ envIds env, Agrees world.rows world.maps chatId := by
    intro chatId hid
    refine (h.maps chatId hid).resolve_right ?_
    rw [hidle]
    rintro ⟨call, hcall, -⟩
    exact absurd hcall List.not_mem_nil
  -- a usable target is the environment's or a row
  have hcases : ∀ chatId url, world.maps.webhooks.lookup chatId = some url →
      (chatId ∈ envIds env ∧ env.lookup chatId = some url) ∨
        ∃ target, world.rows.lookup chatId = some target ∧ target.address = some url := by
    intro chatId url hurl
    by_cases hid : chatId ∈ envIds env
    · exact Or.inl ⟨hid, (h.environment chatId hid).symm.trans hurl⟩
    · have hagrees := hmemory chatId hid
      unfold Agrees at hagrees
      rcases hrow : world.rows.lookup chatId with _ | target
      · rw [hrow] at hagrees
        exact absurd (hagrees.1.symm.trans hurl) (by simp)
      · rw [hrow] at hagrees
        dsimp only at hagrees
        rcases haddress : target.address with _ | address
        · rw [haddress] at hagrees
          exact absurd (hagrees.1.symm.trans hurl) (by simp)
        · rw [haddress] at hagrees
          exact Or.inr ⟨target, rfl, haddress.trans (hagrees.1.symm.trans hurl)⟩
  refine ⟨fun chatId chatId' url hurl hurl' => ?_, h.rows.groups, hmemory, fun chatId hgone => ?_⟩
  · rcases hcases chatId url hurl with ⟨-, henvUrl⟩ | ⟨target, hrow, haddress⟩
    · rcases hcases chatId' url hurl' with ⟨-, henvUrl'⟩ | ⟨target', hrow', haddress'⟩
      · exact henv chatId chatId' url henvUrl henvUrl'
      · exact absurd henvUrl (h.rows.environment chatId' target' chatId url hrow' haddress')
    · rcases hcases chatId' url hurl' with ⟨-, henvUrl'⟩ | ⟨target', hrow', haddress'⟩
      · exact absurd henvUrl' (h.rows.environment chatId target chatId' url hrow haddress)
      · exact h.rows.addresses chatId target chatId' target' url hrow hrow' haddress haddress'
  · obtain ⟨hid, hrow⟩ := h.gone chatId hgone
    have hagrees := hmemory chatId hid
    unfold Agrees at hagrees
    rw [hrow] at hagrees
    exact ⟨hrow, hagrees⟩

/-! ## Steps that only move calls -/

theorem pending_concat (call : Call) {calls : List Call} (h : Pending calls chatId) :
    Pending (calls ++ [call]) chatId := by
  obtain ⟨other, hother, hchanged⟩ := h
  exact ⟨other, List.mem_append_left _ hother, hchanged⟩

theorem pending_eraseIdx {calls : List Call} (hcall : calls[n]? = some call)
    (hother : call.changed ≠ some chatId) (h : Pending calls chatId) : Pending (calls.eraseIdx n) chatId := by
  obtain ⟨other, hmem, hchanged⟩ := h
  obtain ⟨i, hi⟩ := List.mem_iff_getElem?.mp hmem
  refine ⟨other, List.mem_eraseIdx_iff_getElem?.mpr ⟨i, fun hsame => hother ?_, hi⟩, hchanged⟩
  rw [hsame, hcall] at hi
  rw [Option.some.inj hi]
  exact hchanged

theorem pending_set {calls : List Call} (hcall : calls[n]? = some call) (next : Call)
    (hother : call.changed ≠ some chatId) (h : Pending calls chatId) : Pending (calls.set n next) chatId := by
  obtain ⟨other, hmem, hchanged⟩ := h
  obtain ⟨i, hi⟩ := List.mem_iff_getElem?.mp hmem
  refine ⟨other, List.mem_of_getElem? (i := i) ?_, hchanged⟩
  rw [List.getElem?_set_ne (fun hsame => hother ?_), hi]
  rw [← hsame, hcall] at hi
  rw [Option.some.inj hi]
  exact hchanged

theorem mem_set_calls {calls : List Call} {next other : Call} (h : other ∈ calls.set n next) : other ∈ calls ∨ other = next :=
  List.mem_or_eq_of_mem_set h

section

variable (h : Inv env world)

include h

theorem Inv.of_calls {after : World} (hrows : after.rows = world.rows) (hmaps : after.maps = world.maps)
    (hpending : ∀ chatId, Pending world.calls chatId → Pending after.calls chatId)
    (hcalls : ∀ call ∈ after.calls, call ∈ world.calls ∨ call.Proper env) (hgone : ∀ chatId ∈ after.gone, chatId ∈ world.gone) :
    Inv env after := by
  refine ⟨hrows ▸ h.rows, hmaps ▸ h.environment, fun chatId hid => ?_, fun call hcall => ?_, fun chatId hid => ?_⟩
  · rw [hrows, hmaps]
    exact (h.maps chatId hid).imp_right (hpending chatId)
  · exact (hcalls call hcall).elim (h.calls call) (fun hproper => hproper)
  · rw [hrows]
    exact h.gone chatId (hgone chatId hid)

theorem inv_withCall (hproper : call.Proper env) : Inv env (world.withCall call) := by
  refine h.of_calls rfl rfl (fun chatId => pending_concat call) (fun other hother => ?_) (fun _ hid => hid)
  rcases List.mem_append.mp hother with hold | hnew
  · exact Or.inl hold
  · rw [List.mem_singleton.mp hnew]
    exact Or.inr hproper

theorem inv_endCall (hcall : world.calls[n]? = some call) (hchanged : call.changed = none) :
    Inv env (world.endCall n) := by
  refine h.of_calls rfl rfl (fun chatId => pending_eraseIdx hcall (by rw [hchanged]; simp)) (fun other hother => ?_) (fun _ hid => hid)
  exact Or.inl (List.mem_of_mem_eraseIdx hother)

theorem inv_setCall {next : Call} (hcall : world.calls[n]? = some call) (hchanged : call.changed = none)
    (hproper : next.Proper env) {gone : List String} (hgone : ∀ chatId ∈ gone, chatId ∈ world.gone) :
    Inv env { world with calls := world.calls.set n next, gone := gone } := by
  refine h.of_calls rfl rfl (fun chatId => pending_set hcall next (by rw [hchanged]; simp)) (fun other hother => ?_) hgone
  rcases mem_set_calls hother with hold | rfl
  · exact Or.inl hold
  · exact Or.inr hproper

theorem inv_store {target : Target} (haddress : target.address.isSome = true) (url : String)
    (verified : Bool) (newId : String) : Inv env (store chatId target url verified newId world) := by
  unfold store
  split
  next => exact h
  next =>
    refine h.of_calls rfl rfl (fun id => pending_concat _) (fun other hother => ?_) (fun id hid => (List.mem_filter.mp hid).1)
    rcases List.mem_append.mp hother with hold | hnew
    · exact Or.inl hold
    · rw [List.mem_singleton.mp hnew]
      cases verified
      · refine Or.inr ⟨fun id hid => absurd hid (by simp [Call.target, Call.changed]), ?_⟩
        rintro id other (hsame | hsame | hsame) <;> cases hsame
        exact haddress
      · refine Or.inr ⟨fun id hid => absurd hid (by simp [Call.target, Call.changed]), ?_⟩
        rintro id other (hsame | hsame | hsame) <;> cases hsame
        exact haddress

end

/-! ## Steps of the ledger -/

theorem Agrees.congr {rows' : List (String × Target)} {maps maps' : Maps} (h : Agrees rows maps chatId)
    (hrows : rows'.lookup chatId = rows.lookup chatId) (hwebhooks : maps'.webhooks.lookup chatId = maps.webhooks.lookup chatId)
    (hkeywords : maps'.keywords.lookup chatId = maps.keywords.lookup chatId)
    (hstored : maps'.stored.lookup chatId = maps.stored.lookup chatId)
    (hunreadable : maps'.unreadable.lookup chatId = maps.unreadable.lookup chatId) : Agrees rows' maps' chatId := by
  unfold Agrees
  rw [hrows, hwebhooks, hkeywords, hstored, hunreadable]
  exact h

/-- **A row is written that may be written.** -/
theorem inv_write (h : Inv env world) {target : Target} (hcall : world.calls[n]? = some (.saving chatId target))
    (hmay : MayWrite env world chatId target) : Inv env (atLedger n (.saving chatId target) world) := by
  have hproper := h.calls _ (List.mem_of_getElem? hcall)
  have haddress := hproper.address chatId target (Or.inr (Or.inl rfl))
  -- another row than the one that is written
  have hother : ∀ id row, id ≠ chatId → (Dict.set world.rows chatId target).lookup id = some row → world.rows.lookup id = some row := by
    intro id row hne hlookup
    rwa [Dict.lookup_set_ne _ _ _ _ hne] at hlookup
  have hself : ∀ row, (Dict.set world.rows chatId target).lookup chatId = some row → row = target := by
    intro row hlookup
    rw [Dict.lookup_set_self] at hlookup
    exact (Option.some.inj hlookup).symm
  refine ⟨⟨?_, ?_, ?_, ?_⟩, h.environment, fun id hid => ?_, fun call hmem => ?_, fun id hgone => ?_⟩
  · intro id row hrow
    by_cases hsame : id = chatId
    · rw [hsame]
      exact hmay.id
    · exact h.rows.ids id row (hother id row hsame hrow)
  · intro id row id' row' url hrow hrow' hurl hurl'
    by_cases hsame : id = chatId
    · by_cases hsame' : id' = chatId
      · rw [hsame, hsame']
      · subst hsame
        rw [hself row hrow] at hurl
        refine absurd (hurl'.trans hurl.symm) (hmay.address _ (Dict.mem_of_lookup _ _ _ (hother id' row' hsame' hrow')) hsame' haddress)
    · by_cases hsame' : id' = chatId
      · subst hsame'
        rw [hself row' hrow'] at hurl'
        refine absurd (hurl.trans hurl'.symm) (hmay.address _ (Dict.mem_of_lookup _ _ _ (hother id row hsame hrow)) hsame haddress)
      · exact h.rows.addresses id row id' row' url (hother id row hsame hrow) (hother id' row' hsame' hrow') hurl hurl'
  · intro id row envId url hrow hurl henv
    by_cases hsame : id = chatId
    · subst hsame
      rw [hself row hrow] at hurl
      exact hmay.environment _ (Dict.mem_of_lookup _ _ _ henv) hurl
    · exact h.rows.environment id row envId url (hother id row hsame hrow) hurl henv
  · intro id row id' row' wsId hrow hrow' hgroup hgroup'
    by_cases hsame : id = chatId
    · by_cases hsame' : id' = chatId
      · rw [hsame, hsame']
      · subst hsame
        rw [hself row hrow] at hgroup
        refine absurd (hgroup'.trans hgroup.symm)
          (hmay.group _ (Dict.mem_of_lookup _ _ _ (hother id' row' hsame' hrow')) hsame' (by rw [hgroup]; rfl))
    · by_cases hsame' : id' = chatId
      · subst hsame'
        rw [hself row' hrow'] at hgroup'
        refine absurd (hgroup.trans hgroup'.symm)
          (hmay.group _ (Dict.mem_of_lookup _ _ _ (hother id row hsame hrow)) hsame (by rw [hgroup']; rfl))
      · exact h.rows.groups id row id' row' wsId (hother id row hsame hrow) (hother id' row' hsame' hrow') hgroup hgroup'
  · by_cases hsame : id = chatId
    · refine Or.inr ⟨.saved chatId target, List.mem_of_getElem? (i := n) ?_, by rw [hsame]; rfl⟩
      exact List.getElem?_set_self (List.getElem?_eq_some_iff.mp hcall).1
    · refine (h.maps id hid).imp (fun hagrees => ?_) (pending_set hcall _ (by simp [Call.changed]))
      exact hagrees.congr (Dict.lookup_set_ne _ _ _ _ hsame) rfl rfl rfl rfl
  · rcases mem_set_calls hmem with hold | rfl
    · exact h.calls call hold
    · refine ⟨fun id hid => ?_, ?_⟩
      · rw [← Option.some.inj (Option.mem_def.mp hid)]
        exact hmay.id
      · rintro id other (hsame | hsame | hsame) <;> cases hsame
        exact haddress
  · obtain ⟨hid, hrow⟩ := h.gone id hgone
    refine ⟨hid, ?_⟩
    rw [← hrow]
    exact Dict.lookup_set_ne _ _ _ _ (fun hsame => hmay.present (hsame ▸ hgone))

theorem lookup_erase_some {id : String} {row : Target}
    (h : (Dict.erase rows chatId).lookup id = some row) : rows.lookup id = some row := by
  rw [Dict.lookup_erase] at h
  split at h
  next => exact absurd h (by simp)
  next => exact h

/-- **A row is deleted.** -/
theorem inv_delete (h : Inv env world) (hcall : world.calls[n]? = some (.deleting chatId)) :
    Inv env (atLedger n (.deleting chatId) world) := by
  have hproper := h.calls _ (List.mem_of_getElem? hcall)
  have hid := hproper.target chatId rfl
  refine ⟨⟨?_, ?_, ?_, ?_⟩, h.environment, fun id hid' => ?_, fun call hmem => ?_, fun id hgone => ?_⟩
  · exact fun id row hrow => h.rows.ids id row (lookup_erase_some hrow)
  · exact fun id row id' row' url hrow hrow' => h.rows.addresses id row id' row' url (lookup_erase_some hrow) (lookup_erase_some hrow')
  · exact fun id row envId url hrow => h.rows.environment id row envId url (lookup_erase_some hrow)
  · exact fun id row id' row' wsId hrow hrow' => h.rows.groups id row id' row' wsId (lookup_erase_some hrow) (lookup_erase_some hrow')
  · by_cases hsame : id = chatId
    · refine Or.inr ⟨.deleted chatId, List.mem_of_getElem? (i := n) ?_, by rw [hsame]; rfl⟩
      exact List.getElem?_set_self (List.getElem?_eq_some_iff.mp hcall).1
    · refine (h.maps id hid').imp (fun hagrees => ?_) (pending_set hcall _ (by simp [Call.changed]))
      refine hagrees.congr ?_ rfl rfl rfl rfl
      exact (Dict.lookup_erase _ _ _).trans (if_neg (by simpa using hsame))
  · rcases mem_set_calls hmem with hold | rfl
    · exact h.calls call hold
    · refine ⟨fun id hid' => ?_, ?_⟩
      · rw [← Option.some.inj (Option.mem_def.mp hid')]
        exact hid
      · rintro id other (hsame | hsame | hsame) <;> cases hsame
  · obtain ⟨hid', hrow⟩ := h.gone id hgone
    refine ⟨hid', ?_⟩
    change (Dict.erase world.rows chatId).lookup id = none
    rw [Dict.lookup_erase, hrow]
    split <;> rfl

/-! ## Steps of the answers -/

/-- What the maps have of an id. -/
def Maps.at (maps : Maps) (chatId : String) : Option String × Option String × Option Meta × Option String :=
  (maps.webhooks.lookup chatId, maps.keywords.lookup chatId, maps.stored.lookup chatId, maps.unreadable.lookup chatId)

theorem Agrees.of_at {maps maps' : Maps} (h : Agrees rows maps chatId)
    (hat : maps'.at chatId = maps.at chatId) : Agrees rows maps' chatId := by
  obtain ⟨hwebhooks, hkeywords, hstored, hunreadable⟩ : _ ∧ _ ∧ _ ∧ _ := by simpa [Maps.at] using hat
  exact h.congr rfl hwebhooks hkeywords hstored hunreadable

theorem apply_at_ne (maps : Maps) (target : Target) (url : String) {id : String} (hne : id ≠ chatId) :
    (apply chatId target url maps).at id = maps.at id := by
  simp [Maps.at, apply, Dict.lookup_set_ne _ _ _ _ hne, Dict.lookup_erase, hne]

theorem loadRow_at_ne (ids : List String) (maps : Maps) (row : String × Target) {id : String} (hne : id ≠ row.1) :
    (loadRow ids maps row).at id = maps.at id := by
  unfold loadRow
  split
  next => rfl
  next =>
    split
    next => exact apply_at_ne maps row.2 _ hne
    next => simp [Maps.at, Dict.lookup_set_ne _ _ _ _ hne]

theorem clear_at_ne (maps : Maps) {id : String} (hne : id ≠ chatId) : (clear chatId maps).at id = maps.at id := by
  simp [Maps.at, clear, Dict.lookup_erase, hne]

theorem agrees_apply {target : Target} {url : String}
    (hrow : rows.lookup chatId = some target) (haddress : target.address = some url) (maps : Maps) :
    Agrees rows (apply chatId target url maps) chatId := by
  unfold Agrees
  rw [hrow]
  dsimp only
  rw [haddress]
  simp [apply, Dict.lookup_set_self, Dict.lookup_erase]

theorem agrees_clear (hrow : rows.lookup chatId = none) (maps : Maps) :
    Agrees rows (clear chatId maps) chatId := by
  unfold Agrees
  rw [hrow]
  simp [clear, Dict.lookup_erase]

theorem agrees_loadRow {ids : List String} {maps : Maps} {row : String × Target}
    (hid : row.1 ∉ ids) (hrow : rows.lookup row.1 = some row.2)
    (hbefore : row.2.address = none → maps.webhooks.lookup row.1 = none ∧ maps.stored.lookup row.1 = none) :
    Agrees rows (loadRow ids maps row) row.1 := by
  unfold loadRow
  rw [if_neg (by simpa using hid)]
  rcases haddress : row.2.address with _ | url
  · unfold Agrees
    rw [hrow]
    dsimp only
    rw [haddress]
    exact ⟨(hbefore haddress).1, (hbefore haddress).2, Dict.lookup_set_self _ _ _⟩
  · exact agrees_apply hrow haddress maps

theorem Agrees.unreadable {maps : Maps} {target : Target}
    (h : Agrees rows maps chatId) (hrow : rows.lookup chatId = some target) (haddress : target.address = none) :
    maps.webhooks.lookup chatId = none ∧ maps.stored.lookup chatId = none := by
  unfold Agrees at h
  rw [hrow] at h
  dsimp only at h
  rw [haddress] at h
  exact ⟨h.1, h.2.1⟩

theorem loadRows_agree {ids : List String} {waiting : String → Prop} (loaded : List (String × Target))
    (maps : Maps) (hmay : ∀ row ∈ loaded, row.1 ∉ ids → rows.lookup row.1 = some row.2 ∨ waiting row.1)
    (hbefore : ∀ id ∉ ids, Agrees rows maps id ∨ waiting id) :
    ∀ id ∉ ids, Agrees rows (loaded.foldl (loadRow ids) maps) id ∨ waiting id := by
  induction loaded generalizing maps with
  | nil => exact hbefore
  | cons row rest ih =>
      rw [List.foldl_cons]
      refine ih _ (fun other hother => hmay other (List.mem_cons_of_mem _ hother)) (fun id hid => ?_)
      by_cases hsame : id = row.1
      · subst hsame
        rcases hbefore row.1 hid with hagrees | hwaiting
        · refine (hmay row List.mem_cons_self hid).imp_left (fun hrow => ?_)
          exact agrees_loadRow hid hrow (fun haddress => hagrees.unreadable hrow haddress)
        · exact Or.inr hwaiting
      · exact (hbefore id hid).imp_left (fun hagrees => hagrees.of_at (loadRow_at_ne ids maps row hsame))

theorem loadRows_environment {ids : List String} (loaded : List (String × Target)) (maps : Maps) {id : String} (hid : id ∈ ids) :
    (loaded.foldl (loadRow ids) maps).webhooks.lookup id = maps.webhooks.lookup id := by
  induction loaded generalizing maps with
  | nil => rfl
  | cons row rest ih =>
      rw [List.foldl_cons, ih]
      by_cases hsame : id = row.1
      · subst hsame
        unfold loadRow
        rw [if_pos (by simpa using hid)]
      · exact congrArg Prod.fst (loadRow_at_ne ids maps row hsame)

theorem Call.Proper.of_changed (h : call.Proper env) (hchanged : call.changed = some chatId) :
    chatId ∉ envIds env := by
  refine h.target chatId ?_
  cases call with
  | saved id target => exact hchanged
  | deleted id => exact hchanged
  | _ => exact absurd hchanged (by simp [Call.changed])

section

variable (h : Inv env world)

include h

theorem maps_of_reply (hcall : world.calls[n]? = some call)
    (hchanged : call.changed = some chatId) {maps : Maps} (hothers : ∀ id, id ≠ chatId → maps.at id = world.maps.at id)
    (hself : Agrees world.rows maps chatId ∨ Pending (world.calls.eraseIdx n) chatId) :
    ∀ id ∉ envIds env, Agrees world.rows maps id ∨ Pending (world.calls.eraseIdx n) id := by
  intro id hid
  by_cases hsame : id = chatId
  · rw [hsame]
    exact hself
  · refine (h.maps id hid).imp (fun hagrees => hagrees.of_at (hothers id hsame)) (pending_eraseIdx hcall ?_)
    rw [hchanged]
    exact fun heq => hsame (Option.some.inj heq).symm

theorem environment_of_reply (hid : chatId ∉ envIds env) {maps : Maps}
    (hothers : ∀ id, id ≠ chatId → maps.at id = world.maps.at id) :
    ∀ id ∈ envIds env, maps.webhooks.lookup id = env.lookup id := by
  intro id henv
  have hne : id ≠ chatId := fun hsame => hid (hsame ▸ henv)
  exact (congrArg Prod.fst (hothers id hne)).trans (h.environment id henv)

/-- **The answer of a save is applied that may be applied.** -/
theorem inv_apply {target : Target} (hcall : world.calls[n]? = some (.saved chatId target))
    (hmay : MayApply world n chatId target) : Inv env (atReply env n (.saved chatId target) world) := by
  have hproper := h.calls _ (List.mem_of_getElem? hcall)
  obtain ⟨url, hurl⟩ := Option.isSome_iff_exists.mp (hproper.address chatId target (Or.inr (Or.inr rfl)))
  have hmaps : (atReply env n (.saved chatId target) world).maps = apply chatId target url world.maps := by
    simp [atReply, hurl]
  have hothers : ∀ id, id ≠ chatId → (atReply env n (.saved chatId target) world).maps.at id = world.maps.at id := by
    intro id hne
    rw [hmaps]
    exact apply_at_ne _ _ _ hne
  refine ⟨h.rows, environment_of_reply h (hproper.of_changed rfl) hothers, maps_of_reply h hcall rfl hothers ?_, fun call hmem => ?_, h.gone⟩
  · rw [hmaps]
    exact hmay.imp_left (fun hrow => agrees_apply hrow hurl _)
  · exact h.calls call (List.mem_of_mem_eraseIdx hmem)

/-- **The answer of a remove is applied while the row is still away.** -/
theorem inv_clear (hcall : world.calls[n]? = some (.deleted chatId))
    (hrow : world.rows.lookup chatId = none) : Inv env (atReply env n (.deleted chatId) world) := by
  have hproper := h.calls _ (List.mem_of_getElem? hcall)
  have hid := hproper.of_changed rfl
  have hothers : ∀ id, id ≠ chatId → (clear chatId world.maps).at id = world.maps.at id := fun id hne => clear_at_ne _ hne
  refine ⟨h.rows, environment_of_reply h hid hothers, maps_of_reply h hcall rfl hothers (Or.inl (agrees_clear hrow _)),
    fun call hmem => ?_, fun id hgone => ?_⟩
  · exact h.calls call (List.mem_of_mem_eraseIdx hmem)
  · rcases List.mem_cons.mp hgone with rfl | hgone
    · exact ⟨hid, hrow⟩
    · exact h.gone id hgone

/-- **Rows are loaded that may be loaded.** -/
theorem inv_load (hcall : world.calls[n]? = some (.loaded rows))
    (hmay : ∀ row ∈ rows, row.1 ∉ envIds env → MayApply world n row.1 row.2) : Inv env (atReply env n (.loaded rows) world) := by
  refine ⟨h.rows, fun id hid => ?_, ?_, fun call hmem => ?_, h.gone⟩
  · exact (loadRows_environment rows world.maps hid).trans (h.environment id hid)
  · refine loadRows_agree rows world.maps hmay (fun id hid => (h.maps id hid).imp_right (pending_eraseIdx hcall ?_))
    simp [Call.changed]
  · exact h.calls call (List.mem_of_mem_eraseIdx hmem)

end

/-! ## Every step -/

theorem proper_of_idle (htarget : call.target = none)
    (hno : ∀ chatId target, ¬(call = .testing chatId target ∨ call = .saving chatId target ∨ call = .saved chatId target)) :
    call.Proper env :=
  ⟨fun chatId hid => absurd hid (by rw [htarget]; simp), fun chatId target hcall => absurd hcall (hno chatId target)⟩

theorem proper_of_removing (hid : chatId ∉ envIds env)
    (hcall : call = .removingBot chatId ∨ call = .deleting chatId) : call.Proper env := by
  rcases hcall with rfl | rfl
  · exact ⟨fun id hsame => Option.some.inj hsame ▸ hid, fun id target hno => by simp at hno⟩
  · exact ⟨fun id hsame => Option.some.inj hsame ▸ hid, fun id target hno => by simp at hno⟩

section

variable (platform : Platform)

section

variable (h : Inv env world)

include h

theorem inv_add (name webhookUrl keyword websocketChatId chatId : String) :
    Inv env (add platform env name webhookUrl keyword websocketChatId chatId world) := by
  unfold add
  dsimp only
  split
  next =>
    split
    next => exact h
    next =>
      split
      next => exact inv_store h rfl _ _ _
      next =>
        split
        next => exact h
        next =>
          split
          next => exact h
          next => exact inv_store h rfl _ _ _
  next => exact h

theorem inv_addManaged (name websocketChatId keyword : String) :
    Inv env (addManaged platform name websocketChatId keyword world) := by
  unfold addManaged
  dsimp only
  generalize (if platform.trim keyword = "" then defaultManagedKeyword else platform.trim keyword) = word
  split
  next =>
    split
    next => exact h
    next => exact inv_withCall h (proper_of_idle rfl (by simp))
  next => exact h

theorem inv_addExisting (name websocketChatId : String) :
    Inv env (addExisting platform name websocketChatId world) := by
  unfold addExisting
  split
  next =>
    split
    next => exact h
    next => exact inv_withCall h (proper_of_idle rfl (by simp))
  next => exact h

theorem inv_remove (chatId : String) (inUse : Bool) :
    Inv env (remove platform env chatId inUse world) := by
  unfold remove
  dsimp only
  by_cases hid : platform.trim chatId ∈ envIds env
  · rw [if_pos (by simpa using hid)]
    exact h
  · rw [if_neg (by simpa using hid)]
    split
    next => exact h
    next =>
      split
      next => exact h
      next =>
        split
        next =>
          split
          next => exact inv_withCall h (proper_of_removing hid (Or.inl rfl))
          next => exact inv_withCall h (proper_of_removing hid (Or.inr rfl))
        next => exact inv_withCall h (proper_of_removing hid (Or.inr rfl))

theorem inv_withBot (call : Call) (bot : Bot) (newId : String) :
    Inv env (withBot platform call bot newId world) := by
  unfold withBot
  dsimp only
  split
  next => exact inv_store h rfl _ _ _
  next => exact inv_store h rfl _ _ _
  next => exact h

theorem inv_tested (n : ℕ) (ok : Bool) (newId : String) :
    Inv env (step platform env (.tested n ok newId) world) := by
  unfold step
  dsimp only
  split
  next chatId target hcall =>
    have hproper := h.calls _ (List.mem_of_getElem? hcall)
    split
    next =>
      refine inv_setCall h hcall rfl ⟨fun id hid => absurd hid (by simp [Call.target, Call.changed]), ?_⟩ (fun _ hid => hid)
      rintro id other (hsame | hsame | hsame) <;> cases hsame
      exact hproper.address chatId target (Or.inl rfl)
    next => exact inv_endCall h hcall rfl
  next => exact h

theorem inv_ledger (n : ℕ) (ok : Bool) (hallowed : Allowed env world (.ledger n ok)) :
    Inv env (step platform env (.ledger n ok) world) := by
  unfold step
  dsimp only
  split
  next chatId target hcall =>
    cases ok
    · exact inv_endCall h hcall rfl
    · refine inv_write h hcall ?_
      unfold Allowed at hallowed
      dsimp only at hallowed
      rw [hcall] at hallowed
      exact hallowed
  next chatId hcall =>
    cases ok
    · exact inv_endCall h hcall rfl
    · exact inv_delete h hcall
  next hcall =>
    cases ok
    · exact inv_endCall h hcall rfl
    · exact inv_setCall h hcall rfl (proper_of_idle rfl (by simp)) (fun _ hid => hid)
  next => exact h

theorem inv_reply (n : ℕ) (hallowed : Allowed env world (.reply n)) :
    Inv env (step platform env (.reply n) world) := by
  unfold step
  unfold Allowed at hallowed
  dsimp only at hallowed ⊢
  rcases hcall : world.calls[n]? with _ | call
  · exact h
  · rw [hcall] at hallowed
    cases call with
    | saved chatId target => exact inv_apply h hcall hallowed
    | deleted chatId => exact inv_clear h hcall hallowed
    | loaded rows => exact inv_load h hcall hallowed
    | _ => exact h

/-- **Every allowed step keeps the invariant.** -/
theorem inv_step (op : Op) (hallowed : Allowed env world op) :
    Inv env (step platform env op world) := by
  cases op with
  | add name webhookUrl keyword websocketChatId chatId => exact inv_add platform h name webhookUrl keyword websocketChatId chatId
  | addManaged name websocketChatId keyword => exact inv_addManaged platform h name websocketChatId keyword
  | addExisting name websocketChatId => exact inv_addExisting platform h name websocketChatId
  | remove chatId inUse => exact inv_remove platform h chatId inUse
  | load => exact inv_withCall h (proper_of_idle rfl (by simp))
  | bot n answer newId =>
      unfold step
      dsimp only
      split
      next hcall =>
        have hended := inv_endCall h hcall rfl
        cases answer with
        | none => exact hended
        | some bot => exact inv_withBot platform hended _ bot newId
      next hcall =>
        have hended := inv_endCall h hcall rfl
        cases answer with
        | none => exact hended
        | some bot => exact inv_withBot platform hended _ bot newId
      next => exact h
  | tested n ok newId => exact inv_tested platform h n ok newId
  | botRemoved n =>
      unfold step
      dsimp only
      split
      next chatId hcall =>
        have hid := (h.calls _ (List.mem_of_getElem? hcall)).target chatId rfl
        exact inv_setCall h hcall rfl (proper_of_removing hid (Or.inr rfl)) (fun _ hgone => hgone)
      next => exact h
  | ledger n ok => exact inv_ledger platform h n ok hallowed
  | reply n => exact inv_reply platform h n hallowed

end

end

end Steps

/-! ## The start -/

section Start

variable {env : List (String × String)}

theorem started_agrees (keywords : List (String × String)) (rows : List (String × Target)) (hnodup : (rows.map Prod.fst).Nodup) :
    ∀ id ∉ envIds env, Agrees rows (started env keywords rows).maps id := by
  induction rows using List.reverseRecOn with
  | nil =>
      intro id hid
      exact ⟨(Dict.lookup_eq_none _ _).mpr hid, rfl, rfl⟩
  | append_singleton rows row ih =>
      intro id hid
      rw [List.map_append, List.nodup_append] at hnodup
      have hnotMem : row.1 ∉ rows.map Prod.fst := fun hmem => hnodup.2.2 row.1 hmem row.1 (by simp) rfl
      have hfresh : rows.lookup row.1 = none := (Dict.lookup_eq_none _ _).mpr hnotMem
      have hlookup := Dict.lookup_concat rows row.1 row.2
      have hmaps : (started env keywords (rows ++ [row])).maps = loadRow (envIds env) (started env keywords rows).maps row := by
        unfold started
        rw [List.foldl_append, List.foldl_cons, List.foldl_nil]
      rw [hmaps]
      by_cases hsame : id = row.1
      · subst hsame
        have hbefore := ih hnodup.1 row.1 hid
        unfold Agrees at hbefore
        rw [hfresh] at hbefore
        refine agrees_loadRow hid ?_ (fun _ => ⟨hbefore.1, hbefore.2.1⟩)
        exact (hlookup row.1 hnotMem).trans (if_pos (by simp))
      · have hrow : (rows ++ [row]).lookup id = rows.lookup id :=
          (hlookup id hnotMem).trans (if_neg (by simpa using hsame))
        have hat := loadRow_at_ne (envIds env) (started env keywords rows).maps row hsame
        exact ((ih hnodup.1 id hid).of_at hat).congr hrow rfl rfl rfl rfl

theorem inv_started {keywords : List (String × String)} (hnodup : (rows.map Prod.fst).Nodup)
    (hrows : RowsSound env rows) : Inv env (started env keywords rows) where
  rows := hrows
  environment _ hid := loadRows_environment rows _ hid
  maps id hid := Or.inl (started_agrees keywords rows hnodup id hid)
  calls _ hcall := absurd hcall List.not_mem_nil
  gone _ hgone := absurd hgone List.not_mem_nil

end Start

/-! ## Two runs -/

/-- Texts without spaces around them, and addresses as the platform writes them. -/
def plainPlatform : Platform := ⟨fun text => text, some⟩

/-- The target of a group whose address cannot be read any more. -/
def unreadableTarget : Target := ⟨"Group", none, "key", some "700001", none, false⟩

theorem rowsSound_unreadable {env : List (String × String)} (hid : "oc_old" ∉ envIds env) :
    RowsSound env [("oc_old", unreadableTarget)] := by
  have hrow : ∀ chatId target, [("oc_old", unreadableTarget)].lookup chatId = some target → chatId = "oc_old" ∧ target = unreadableTarget := by
    intro chatId target hlookup
    have hmem := Dict.mem_of_lookup _ _ _ hlookup
    simpa using hmem
  refine ⟨fun chatId target hlookup => ?_, fun chatId target chatId' target' url hlookup hlookup' _ _ => ?_,
    fun chatId target envId url hlookup haddress => ?_, fun chatId target chatId' target' wsId hlookup hlookup' _ _ => ?_⟩
  · rw [(hrow chatId target hlookup).1]
    exact hid
  · rw [(hrow chatId target hlookup).1, (hrow chatId' target' hlookup').1]
  · rw [(hrow chatId target hlookup).2] at haddress
    exact absurd haddress (by simp [unreadableTarget])
  · rw [(hrow chatId target hlookup).1, (hrow chatId' target' hlookup').1]

def oneEnv : List (String × String) := [("oc_env", "https://open.feishu.cn/open-apis/bot/v2/hook/env-00001")]

/-- A new target, another load, the unreadable target entered again under its id, and the new target's removal. -/
def quietOps : List Op :=
  [.add "Other" "https://open.feishu.cn/open-apis/bot/v2/hook/new-00001" "key" "700002" "", .load, .tested 0 true "wh_new",
    .ledger 0 true, .reply 0, .ledger 0 true, .reply 0,
    .add "Group" "https://open.feishu.cn/open-apis/bot/v2/hook/old-00001" "key" "700001" "oc_old", .tested 0 true "",
    .ledger 0 true, .reply 0, .remove "wh_new" false, .ledger 0 true, .reply 0]

/-- The group of the unreadable target is entered without its id. -/
def enteredTwice : World :=
  Driven.afterwards (step plainPlatform [])
    [.add "Group" "https://open.feishu.cn/open-apis/bot/v2/hook/old-00001" "key" "700001" "", .tested 0 true "wh_new",
      .ledger 0 true, .reply 0]
    (started [] [] [("oc_old", unreadableTarget)])

end TradingHarness.Webhooks
