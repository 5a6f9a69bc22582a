import Mathlib.Tactic.Linarith
import Mathlib.Data.List.Induction
import TradingHarness.Library.Runs
import TradingHarness.Signals.Episodes

set_option autoImplicit false

/-! # Runs of episode observations

At most one episode of a key is ever active. An observation that joins overwrites the time it is the
newest of, and one that finds no active episode opens one without asking when the key was last seen:
so times move forward, and a key is re-armed only after the gap, exactly in the runs whose observations
come in time order. -/

namespace TradingHarness

/-! ## What a run keeps -/

/-- The key and the time of an observation that is stored. -/
def EpisodeAction.observed : EpisodeAction → Option (EpisodeKey × Timestamp)
  | .observe signal observedAt _ symbol =>
      if observedSymbol signal symbol = "" then none
      else some (episodeKey signal observedAt symbol, observedAt)
  | .clear _ _ => none

/-- When the key was observed. -/
def observedTimes (key : EpisodeKey) (actions : List EpisodeAction) : List Timestamp :=
  ((actions.filterMap EpisodeAction.observed).filter (fun seen => decide (seen.1 = key))).map Prod.snd

section Runs

variable (digest : MaterialState → String)

/-- The observation joins an episode that was active, or comes after the gap. -/
def JoinsOrRearms (past : List EpisodeAction) (action : EpisodeAction) : Prop :=
  ∀ key observedAt, action.observed = some (key, observedAt) →
    (∃ episode ∈ activeEpisodes (runEpisodes digest past) key,
      ∃ later ∈ activeEpisodes (runEpisodes digest (past ++ [action])) key,
        later.episodeId = episode.episodeId) ∨
      ∀ earlier ∈ observedTimes key past, episodeContinuity < observedAt - earlier

/-- No `last_observed_at` moves backwards. -/
def MovesForward (past : List EpisodeAction) (action : EpisodeAction) : Prop :=
  ∀ episode ∈ runEpisodes digest past, ∀ later ∈ runEpisodes digest (past ++ [action]),
    later.episodeId = episode.episodeId → episode.lastObservedAt ≤ later.lastObservedAt

structure EpisodesKept (actions : List EpisodeAction) : Prop where
  oneActive : ∀ past rest, actions = past ++ rest → ∀ key,
    (activeEpisodes (runEpisodes digest past) key).length ≤ 1
  joinsOrRearms : Runs.InTurn (JoinsOrRearms digest) actions
  movesForward : Runs.InTurn (MovesForward digest) actions

/-- An observation that meets an active episode is not older than it, and one that meets none comes
    after the gap from every episode of its key. -/
def InTimeOrder (table : List Episode) (action : EpisodeAction) : Prop :=
  ∀ key observedAt, action.observed = some (key, observedAt) →
    (∀ episode ∈ activeEpisodes table key, episode.lastObservedAt ≤ observedAt) ∧
    (activeEpisodes table key = [] → ∀ episode ∈ table, episode.key = key →
      episodeContinuity < observedAt - episode.lastObservedAt)

end Runs

/-! ## Rows -/

theorem mem_activeEpisodes (table : List Episode) (key : EpisodeKey) (episode : Episode) :
    episode ∈ activeEpisodes table key ↔
      episode ∈ table ∧ episode.key = key ∧ episode.state = .active := by
  unfold activeEpisodes
  rw [List.mem_filter, decide_eq_true_eq]

/-- What a call does to the table: nothing, it clears rows, an observation joins the active row, or it
    opens a row and clears the active one after the gap. -/
theorem stepEpisodes_cases (digest : MaterialState → String) (table : List Episode)
    (action : EpisodeAction) :
    (action.observed = none ∧ ∃ stale : Episode → Bool, ∃ observedAt,
      (∀ episode, stale episode = true → episode.lastObservedAt < observedAt - episodeContinuity) ∧
      stepEpisodes digest table action = table.map (fun episode =>
        if stale episode then episode.cleared observedAt .signalConditionCleared else episode)) ∨
    ∃ key observedAt, action.observed = some (key, observedAt) ∧
      ((∃ active ∈ activeEpisodes table key, ∃ stage hash eventState,
          observedAt - active.lastObservedAt ≤ episodeContinuity ∧
          stepEpisodes digest table action
            = updateEpisode table active.episodeId (·.joined stage hash observedAt eventState)) ∨
        (∃ active ∈ activeEpisodes table key, ∃ stage hash eventState,
          episodeContinuity < observedAt - active.lastObservedAt ∧
          stepEpisodes digest table action
            = updateEpisode table active.episodeId (·.cleared observedAt .continuityWindowElapsed) ++
              [newEpisode table key stage hash observedAt eventState true]) ∨
        activeEpisodes table key = [] ∧ ∃ stage hash eventState,
          stepEpisodes digest table action
            = table ++ [newEpisode table key stage hash observedAt eventState false]) := by
  rcases action with ⟨signal, observedAt, eventState, symbol⟩ | ⟨symbols, observedAt⟩
  · by_cases hsymbol : observedSymbol signal symbol = ""
    · left
      refine ⟨if_pos hsymbol, fun _ => false, 0, by simp, ?_⟩
      simp only [stepEpisodes, ensureSignalEpisode, if_pos hsymbol]
      simp
    · right
      refine ⟨episodeKey signal observedAt symbol, observedAt, if_neg hsymbol, ?_⟩
      show _ ∨ _
      simp only [stepEpisodes, ensureSignalEpisode, if_neg hsymbol]
      rcases hactive : activeEpisode table (episodeKey signal observedAt symbol) with _ | active
      · right; right
        refine ⟨?_, _, _, _, rfl⟩
        by_contra hne
        unfold activeEpisode at hactive
        have hsome := List.isSome_maxOn?_iff (f := (·.lastObservedAt)) |>.mpr hne
        rw [hactive] at hsome
        exact absurd hsome (by simp)
      · have hmem : active ∈ activeEpisodes table (episodeKey signal observedAt symbol) :=
          List.maxOn?_mem hactive
        by_cases hgap : observedAt - active.lastObservedAt ≤ episodeContinuity
        · left
          refine ⟨active, hmem, signalStage signal, digest (materialStatePayload signal), eventState,
            hgap, ?_⟩
          simp only [if_pos hgap]
        · right; left
          refine ⟨active, hmem, signalStage signal, digest (materialStatePayload signal), eventState,
            not_le.mp hgap, ?_⟩
          simp only [if_neg hgap]
  · left
    refine ⟨rfl, _, observedAt, ?_, rfl⟩
    intro episode hstale
    exact (of_decide_eq_true hstale).2.2

/-! ## One active episode -/

/-- Ids are handed out in order, and no two active rows share a key. -/
structure Tidy (table : List Episode) : Prop where
  ids : table.map (·.episodeId) = List.range table.length
  oneActive : ∀ first ∈ table, ∀ second ∈ table, first.state = .active → second.state = .active →
    first.key = second.key → first = second

variable {table : List Episode}

theorem Tidy.eq_of_id (h : Tidy table) (first second : Episode)
    (hfirst : first ∈ table) (hsecond : second ∈ table)
    (hid : first.episodeId = second.episodeId) : first = second := by
  have hnodup : (table.map (·.episodeId)).Nodup := h.ids ▸ List.nodup_range
  exact List.inj_on_of_nodup_map hnodup hfirst hsecond hid

theorem Tidy.id_lt (h : Tidy table) (episode : Episode)
    (hmem : episode ∈ table) : episode.episodeId < table.length := by
  have hid : episode.episodeId ∈ table.map (·.episodeId) := List.mem_map_of_mem hmem
  rw [h.ids] at hid
  exact List.mem_range.mp hid

/-- A change that keeps ids and keys and activates nothing. -/
structure Settles (change : Episode → Episode) : Prop where
  episodeId : ∀ episode, (change episode).episodeId = episode.episodeId
  key : ∀ episode, (change episode).key = episode.key
  state : ∀ episode, (change episode).state = .active → episode.state = .active

theorem Tidy.map {change : Episode → Episode} (h : Tidy table)
    (hchange : Settles change) : Tidy (table.map change) where
  ids := by
    rw [List.map_map, List.length_map, ← h.ids]
    exact List.map_congr_left (fun episode _ => hchange.episodeId episode)
  oneActive := by
    intro first hfirst second hsecond hactive hactive' hkey
    obtain ⟨a, ha, rfl⟩ := List.mem_map.mp hfirst
    obtain ⟨b, hb, rfl⟩ := List.mem_map.mp hsecond
    rw [hchange.key, hchange.key] at hkey
    rw [h.oneActive a ha b hb (hchange.state a hactive) (hchange.state b hactive') hkey]

/-- Opening an episode where none of its key is active. -/
theorem Tidy.open {old : List Episode} (h : Tidy table) (key : EpisodeKey) (stage : Stage)
    (hash : String) (observedAt : Timestamp) (eventState : String) (rearm : Bool)
    (hlength : old.length = table.length)
    (hnone : ∀ episode ∈ table, episode.key = key → episode.state ≠ .active) :
    Tidy (table ++ [newEpisode old key stage hash observedAt eventState rearm]) where
  ids := by
    rw [List.map_append, h.ids, List.length_append, List.length_singleton, List.range_succ]
    show _ ++ [old.length] = _
    rw [hlength]
  oneActive := by
    intro first hfirst second hsecond hactive hactive' hkey
    rcases List.mem_append.mp hfirst with hfirst | hfirst
    · rcases List.mem_append.mp hsecond with hsecond | hsecond
      · exact h.oneActive first hfirst second hsecond hactive hactive' hkey
      · obtain rfl := List.mem_singleton.mp hsecond
        exact absurd hactive (hnone first hfirst hkey)
    · obtain rfl := List.mem_singleton.mp hfirst
      rcases List.mem_append.mp hsecond with hsecond | hsecond
      · exact absurd hactive' (hnone second hsecond hkey.symm)
      · exact (List.mem_singleton.mp hsecond).symm

theorem settles_joined (episodeId : ℕ) (stage : Stage) (hash : String) (observedAt : Timestamp)
    (eventState : String) :
    Settles (fun episode => if episode.episodeId = episodeId then
      episode.joined stage hash observedAt eventState else episode) where
  episodeId episode := by split <;> rfl
  key episode := by split <;> rfl
  state episode := by split <;> exact id

theorem settles_cleared (chosen : Episode → Prop) [DecidablePred chosen] (observedAt : Timestamp)
    (reason : ClearReason) :
    Settles (fun episode => if chosen episode then episode.cleared observedAt reason else episode) where
  episodeId episode := by split <;> rfl
  key episode := by split <;> rfl
  state episode := by
    split
    · intro h
      exact absurd h (by simp [Episode.cleared])
    · exact id

theorem none_active_cleared (h : Tidy table) (key : EpisodeKey)
    (active : Episode) (hactive : active ∈ activeEpisodes table key) (observedAt : Timestamp)
    (reason : ClearReason) :
    ∀ episode ∈ updateEpisode table active.episodeId (·.cleared observedAt reason),
      episode.key = key → episode.state ≠ .active := by
  rw [mem_activeEpisodes] at hactive
  obtain ⟨hmem, hkey, hstate⟩ := hactive
  intro later hlater hsame
  obtain ⟨episode, hepisode, rfl⟩ := List.mem_map.mp hlater
  split at hsame
  · next hid =>
      rw [if_pos hid]
      simp [Episode.cleared]
  · next hid =>
      rw [if_neg hid]
      intro hother
      exact hid (congrArg _ (h.oneActive episode hepisode active hmem hother hstate
        (hsame.trans hkey.symm)))

section

variable (digest : MaterialState → String)

theorem stepEpisodes_tidy (table : List Episode)
    (action : EpisodeAction) (h : Tidy table) : Tidy (stepEpisodes digest table action) := by
  rcases stepEpisodes_cases digest table action with ⟨-, stale, observedAt, -, hstep⟩ |
    ⟨key, observedAt, -, ⟨active, -, stage, hash, eventState, -, hstep⟩ |
      ⟨active, hactive, stage, hash, eventState, -, hstep⟩ | ⟨hnone, stage, hash, eventState, hstep⟩⟩
  · rw [hstep]
    exact h.map (settles_cleared (fun episode => stale episode = true) observedAt _)
  · rw [hstep]
    exact h.map (settles_joined _ _ _ _ _)
  · rw [hstep]
    refine Tidy.open (h.map (settles_cleared (·.episodeId = active.episodeId) observedAt _)) key stage
      hash observedAt eventState true (List.length_map _).symm ?_
    exact none_active_cleared h key active hactive observedAt _
  · rw [hstep]
    refine h.open key stage hash observedAt eventState false rfl ?_
    intro episode hmem hkey hstate
    have hactive := (mem_activeEpisodes table key episode).mpr ⟨hmem, hkey, hstate⟩
    rw [hnone] at hactive
    exact absurd hactive List.not_mem_nil

theorem runEpisodes_concat (actions : List EpisodeAction)
    (action : EpisodeAction) :
    runEpisodes digest (actions ++ [action])
      = stepEpisodes digest (runEpisodes digest actions) action := by
  unfold runEpisodes
  rw [List.foldl_append]
  rfl

theorem runEpisodes_tidy (actions : List EpisodeAction) :
    Tidy (runEpisodes digest actions) := by
  induction actions using List.reverseRecOn with
  | nil => exact ⟨rfl, fun first hfirst => absurd hfirst List.not_mem_nil⟩
  | append_singleton actions action ih =>
      rw [runEpisodes_concat]
      exact stepEpisodes_tidy digest _ action ih

end

theorem Tidy.length_activeEpisodes (h : Tidy table) (key : EpisodeKey) :
    (activeEpisodes table key).length ≤ 1 := by
  have hnodup : (activeEpisodes table key).Nodup :=
    (List.Nodup.of_map (·.episodeId) (h.ids ▸ List.nodup_range)).filter _
  rcases hrows : activeEpisodes table key with _ | ⟨first, _ | ⟨second, rest⟩⟩
  · exact Nat.zero_le _
  · exact le_refl _
  · rw [hrows] at hnodup
    have hfirst := (mem_activeEpisodes table key first).mp (by rw [hrows]; simp)
    have hsecond := (mem_activeEpisodes table key second).mp (by rw [hrows]; simp)
    have hsame := h.oneActive first hfirst.1 second hsecond.1 hfirst.2.2 hsecond.2.2
      (hfirst.2.1.trans hsecond.2.1.symm)
    exact absurd hsame (List.ne_of_not_mem_cons (List.nodup_cons.mp hnodup).1)

/-! ## Times -/

/-- The rows tell when their keys were observed: every observation is covered by a row, every row ends
    at an observation, and the active row of a key is its newest. -/
structure Tracked (past : List EpisodeAction) (table : List Episode) : Prop where
  covered : ∀ key, ∀ earlier ∈ observedTimes key past,
    ∃ episode ∈ table, episode.key = key ∧ earlier ≤ episode.lastObservedAt
  ends : ∀ episode ∈ table, episode.lastObservedAt ∈ observedTimes episode.key past
  newest : ∀ active ∈ table, active.state = .active → ∀ episode ∈ table, episode.key = active.key →
    episode.lastObservedAt ≤ active.lastObservedAt

theorem observedTimes_of_none (key : EpisodeKey) (past : List EpisodeAction) (action : EpisodeAction)
    (h : action.observed = none) : observedTimes key (past ++ [action]) = observedTimes key past := by
  unfold observedTimes
  rw [List.filterMap_append]
  simp [h]

theorem mem_observedTimes_concat (key : EpisodeKey) (past : List EpisodeAction)
    (action : EpisodeAction) (seen : EpisodeKey) (observedAt time : Timestamp)
    (h : action.observed = some (seen, observedAt)) :
    time ∈ observedTimes key (past ++ [action]) ↔
      time ∈ observedTimes key past ∨ (seen = key ∧ time = observedAt) := by
  unfold observedTimes
  rw [List.filterMap_append, List.filter_append, List.map_append, List.mem_append]
  refine or_congr_right ?_
  by_cases hkey : seen = key
  · simp [h, hkey]
  · simp [h, hkey]

variable {past : List EpisodeAction}

section

variable (h : Tracked past table)

include h

theorem Tracked.map {change : Episode → Episode}
    (hchange : Settles change)
    (htime : ∀ episode, (change episode).lastObservedAt = episode.lastObservedAt) :
    Tracked past (table.map change) where
  covered := by
    intro key earlier hearlier
    obtain ⟨episode, hmem, hkey, hle⟩ := h.covered key earlier hearlier
    exact ⟨change episode, List.mem_map_of_mem hmem, (hchange.key episode).trans hkey,
      (htime episode).symm ▸ hle⟩
  ends := by
    intro later hlater
    obtain ⟨episode, hmem, rfl⟩ := List.mem_map.mp hlater
    rw [htime, hchange.key]
    exact h.ends episode hmem
  newest := by
    intro active hactive hstate later hlater hkey
    obtain ⟨a, ha, rfl⟩ := List.mem_map.mp hactive
    obtain ⟨e, he, rfl⟩ := List.mem_map.mp hlater
    rw [hchange.key, hchange.key] at hkey
    rw [htime, htime]
    exact h.newest a ha (hchange.state a hstate) e he hkey

/-- An episode opened later than every row of its key. -/
theorem Tracked.open (action : EpisodeAction) (old : List Episode) (key : EpisodeKey) (stage : Stage) (hash : String)
    (observedAt : Timestamp) (eventState : String) (rearm : Bool)
    (hobserved : action.observed = some (key, observedAt))
    (hnone : ∀ episode ∈ table, episode.key = key → episode.state ≠ .active)
    (hlater : ∀ episode ∈ table, episode.key = key → episode.lastObservedAt ≤ observedAt) :
    Tracked (past ++ [action])
      (table ++ [newEpisode old key stage hash observedAt eventState rearm]) where
  covered := by
    intro other earlier hearlier
    rw [mem_observedTimes_concat other past action key observedAt earlier hobserved] at hearlier
    rcases hearlier with hearlier | ⟨rfl, rfl⟩
    · obtain ⟨episode, hmem, hkey, hle⟩ := h.covered other earlier hearlier
      exact ⟨episode, List.mem_append_left _ hmem, hkey, hle⟩
    · exact ⟨_, List.mem_append_right _ (List.mem_singleton.mpr rfl), rfl, le_refl _⟩
  ends := by
    intro episode hmem
    rw [mem_observedTimes_concat _ past action key observedAt _ hobserved]
    rcases List.mem_append.mp hmem with hmem | hmem
    · exact Or.inl (h.ends episode hmem)
    · obtain rfl := List.mem_singleton.mp hmem
      exact Or.inr ⟨rfl, rfl⟩
  newest := by
    intro active hactive hstate episode hmem hkey
    rcases List.mem_append.mp hactive with hactive | hactive
    · rcases List.mem_append.mp hmem with hmem | hmem
      · exact h.newest active hactive hstate episode hmem hkey
      · obtain rfl := List.mem_singleton.mp hmem
        exact absurd hstate (hnone active hactive hkey.symm)
    · obtain rfl := List.mem_singleton.mp hactive
      rcases List.mem_append.mp hmem with hmem | hmem
      · exact hlater episode hmem hkey
      · obtain rfl := List.mem_singleton.mp hmem
        exact le_refl _

/-- The active row takes the time of an observation that is not older. -/
theorem Tracked.join (htidy : Tidy table) (action : EpisodeAction) (key : EpisodeKey) (active : Episode)
    (hactive : active ∈ activeEpisodes table key) (stage : Stage) (hash : String)
    (observedAt : Timestamp) (eventState : String)
    (hobserved : action.observed = some (key, observedAt))
    (hforward : active.lastObservedAt ≤ observedAt) :
    Tracked (past ++ [action])
      (updateEpisode table active.episodeId (·.joined stage hash observedAt eventState)) := by
  rw [mem_activeEpisodes] at hactive
  obtain ⟨hmem, hkey, hstate⟩ := hactive
  have hrow : ∀ episode ∈ table, (if episode.episodeId = active.episodeId then
      episode.joined stage hash observedAt eventState else episode) = episode ∨ episode = active := by
    intro episode hepisode
    by_cases hid : episode.episodeId = active.episodeId
    · exact Or.inr (htidy.eq_of_id episode active hepisode hmem hid)
    · exact Or.inl (if_neg hid)
  have hjoined : (if active.episodeId = active.episodeId then
      active.joined stage hash observedAt eventState else active)
        = active.joined stage hash observedAt eventState := if_pos rfl
  refine ⟨?_, ?_, ?_⟩
  · intro other earlier hearlier
    rw [mem_observedTimes_concat other past action key observedAt earlier hobserved] at hearlier
    rcases hearlier with hearlier | ⟨rfl, rfl⟩
    · obtain ⟨episode, hepisode, hother, hle⟩ := h.covered other earlier hearlier
      refine ⟨_, List.mem_map_of_mem hepisode, ?_⟩
      rcases hrow episode hepisode with hsame | rfl
      · rw [hsame]
        exact ⟨hother, hle⟩
      · rw [hjoined]
        exact ⟨hother, le_trans hle hforward⟩
    · refine ⟨_, List.mem_map_of_mem hmem, ?_⟩
      rw [hjoined]
      exact ⟨hkey, le_refl _⟩
  · intro later hlater
    obtain ⟨episode, hepisode, rfl⟩ := List.mem_map.mp hlater
    rw [mem_observedTimes_concat _ past action key observedAt _ hobserved]
    rcases hrow episode hepisode with hsame | rfl
    · rw [hsame]
      exact Or.inl (h.ends episode hepisode)
    · rw [hjoined]
      exact Or.inr ⟨hkey.symm, rfl⟩
  · intro newest hnewest hnewestState later hlater hsame
    obtain ⟨a, ha, rfl⟩ := List.mem_map.mp hnewest
    obtain ⟨e, he, rfl⟩ := List.mem_map.mp hlater
    have hsettles := settles_joined active.episodeId stage hash observedAt eventState
    have haState : a.state = .active := hsettles.state a hnewestState
    have hkeys : e.key = a.key := (hsettles.key e).symm.trans (hsame.trans (hsettles.key a))
    have hle := h.newest a ha haState e he hkeys
    rcases hrow a ha with haSame | rfl
    · rcases hrow e he with heSame | rfl
      · rw [haSame, heSame]
        exact hle
      · -- the only active row of the key is the joined one
        obtain rfl := htidy.oneActive a ha e he haState hstate hkeys.symm
        rw [hjoined]
    · rw [hjoined]
      rcases hrow e he with heSame | rfl
      · rw [heSame]
        exact le_trans hle hforward
      · rw [hjoined]

end

/-! ## One call, in time order and not -/

theorem row_of_id (htidy : Tidy table) (change : Episode → Episode)
    (hchange : Settles change) (episode : Episode) (hmem : episode ∈ table) (later : Episode)
    (hlater : later ∈ table.map change) (hid : later.episodeId = episode.episodeId) :
    later = change episode := by
  obtain ⟨other, hother, rfl⟩ := List.mem_map.mp hlater
  rw [hchange.episodeId] at hid
  rw [htidy.eq_of_id other episode hother hmem hid]

theorem gap_of_active (h : Tracked past table)
    (key : EpisodeKey) (active : Episode) (hactive : active ∈ activeEpisodes table key)
    (observedAt : Timestamp) (hgap : episodeContinuity < observedAt - active.lastObservedAt) :
    ∀ episode ∈ table, episode.key = key →
      episodeContinuity < observedAt - episode.lastObservedAt := by
  rw [mem_activeEpisodes] at hactive
  obtain ⟨hmem, hkey, hstate⟩ := hactive
  intro episode hepisode hsame
  have hle := h.newest active hmem hstate episode hepisode (hsame.trans hkey.symm)
  linarith

theorem continuity_pos : (0 : ℤ) < episodeContinuity := by decide

theorem stepEpisodes_tracked (digest : MaterialState → String) (past : List EpisodeAction)
    (table : List Episode) (action : EpisodeAction) (htidy : Tidy table) (h : Tracked past table)
    (horder : InTimeOrder table action) :
    Tracked (past ++ [action]) (stepEpisodes digest table action) := by
  have hpos := continuity_pos
  rcases stepEpisodes_cases digest table action with ⟨hobserved, stale, observedAt, -, hstep⟩ |
    ⟨key, observedAt, hobserved, ⟨active, hactive, stage, hash, eventState, -, hstep⟩ |
      ⟨active, hactive, stage, hash, eventState, hgap, hstep⟩ |
      ⟨hnone, stage, hash, eventState, hstep⟩⟩
  · have hmapped := h.map (settles_cleared (fun episode => stale episode = true) observedAt
      .signalConditionCleared) (fun episode => by split <;> rfl)
    rw [hstep]
    refine ⟨?_, ?_, hmapped.newest⟩
    · intro key earlier hearlier
      rw [observedTimes_of_none key past action hobserved] at hearlier
      exact hmapped.covered key earlier hearlier
    · intro episode hmem
      rw [observedTimes_of_none _ past action hobserved]
      exact hmapped.ends episode hmem
  · rw [hstep]
    exact h.join htidy action key active hactive stage hash observedAt eventState hobserved
      ((horder key observedAt hobserved).1 active hactive)
  · have hlate := gap_of_active h key active hactive observedAt hgap
    have hmapped := h.map (settles_cleared (·.episodeId = active.episodeId) observedAt
      .continuityWindowElapsed) (fun episode => by split <;> rfl)
    rw [hstep]
    refine hmapped.open action table key stage hash observedAt eventState true hobserved
      (none_active_cleared htidy key active hactive observedAt _) ?_
    intro later hlater hkey
    obtain ⟨episode, hmem, rfl⟩ := List.mem_map.mp hlater
    have hsettles := settles_cleared (·.episodeId = active.episodeId) observedAt
      .continuityWindowElapsed
    have hgap := hlate episode hmem ((hsettles.key episode).symm.trans hkey)
    have htime : (if episode.episodeId = active.episodeId then
        episode.cleared observedAt .continuityWindowElapsed else episode).lastObservedAt
          = episode.lastObservedAt := by split <;> rfl
    rw [htime]
    linarith
  · rw [hstep]
    refine h.open action table key stage hash observedAt eventState false hobserved ?_ ?_
    · intro episode hmem hkey hstate
      have hactive := (mem_activeEpisodes table key episode).mpr ⟨hmem, hkey, hstate⟩
      rw [hnone] at hactive
      exact absurd hactive List.not_mem_nil
    · intro episode hmem hkey
      have hgap := (horder key observedAt hobserved).2 hnone episode hmem hkey
      linarith

theorem rearms_of_gap (h : Tracked past table)
    (key : EpisodeKey) (observedAt : Timestamp)
    (hgap : ∀ episode ∈ table, episode.key = key →
      episodeContinuity < observedAt - episode.lastObservedAt) :
    ∀ earlier ∈ observedTimes key past, episodeContinuity < observedAt - earlier := by
  intro earlier hearlier
  obtain ⟨episode, hmem, hkey, hle⟩ := h.covered key earlier hearlier
  have hlate := hgap episode hmem hkey
  linarith

section

variable (digest : MaterialState → String)

/-- **One call.** Where the rows tell when their keys were observed, a call joins or re-arms as it
    should and moves no time backwards exactly when it comes in time order. -/
theorem kept_step_iff (past : List EpisodeAction)
    (action : EpisodeAction) (h : Tracked past (runEpisodes digest past)) :
    JoinsOrRearms digest past action ∧ MovesForward digest past action ↔
      InTimeOrder (runEpisodes digest past) action := by
  have htidy := runEpisodes_tidy digest past
  have hpos := continuity_pos
  unfold JoinsOrRearms MovesForward
  rw [runEpisodes_concat]
  generalize runEpisodes digest past = table at h htidy ⊢
  rcases stepEpisodes_cases digest table action with ⟨hobserved, stale, observedAt, -, hstep⟩ |
    ⟨key, observedAt, hobserved, hcase⟩
  · -- a clear moves no time
    rw [hstep]
    refine iff_of_true ⟨?_, ?_⟩ ?_
    · intro key time hsome
      rw [hobserved] at hsome
      exact absurd hsome (by simp)
    · intro episode hmem later hlater hid
      rw [row_of_id htidy _ (settles_cleared (fun episode => stale episode = true) observedAt _)
        episode hmem later hlater hid]
      split <;> exact le_refl _
    · intro key time hsome
      rw [hobserved] at hsome
      exact absurd hsome (by simp)
  have hthis : ∀ other time, action.observed = some (other, time) → other = key ∧ time = observedAt := by
    intro other time hsome
    rw [hobserved] at hsome
    obtain ⟨rfl, rfl⟩ := Prod.mk.inj (Option.some.inj hsome)
    exact ⟨rfl, rfl⟩
  rcases hcase with ⟨active, hactive, stage, hash, eventState, -, hstep⟩ |
    ⟨active, hactive, stage, hash, eventState, hgap, hstep⟩ | ⟨hnone, stage, hash, eventState, hstep⟩
  · -- joining takes the time as it comes
    obtain ⟨hmem, hkey, hstate⟩ := (mem_activeEpisodes table key active).mp hactive
    have hsettles := settles_joined active.episodeId stage hash observedAt eventState
    have hlater : active.joined stage hash observedAt eventState ∈ stepEpisodes digest table action := by
      rw [hstep]
      exact List.mem_map.mpr ⟨active, hmem, if_pos rfl⟩
    constructor
    · rintro ⟨-, hforward⟩ other time hsome
      obtain ⟨rfl, rfl⟩ := hthis other time hsome
      refine ⟨?_, fun hempty => ?_⟩
      · intro episode hepisode
        obtain ⟨hepisodeMem, hepisodeKey, hepisodeState⟩ :=
          (mem_activeEpisodes table _ episode).mp hepisode
        obtain rfl := htidy.oneActive episode hepisodeMem active hmem hepisodeState hstate
          (hepisodeKey.trans hkey.symm)
        exact hforward episode hmem _ hlater rfl
      · rw [hempty] at hactive
        exact absurd hactive List.not_mem_nil
    · intro horder
      refine ⟨?_, ?_⟩
      · intro other time hsome
        obtain ⟨rfl, rfl⟩ := hthis other time hsome
        exact Or.inl ⟨active, hactive, _, (mem_activeEpisodes _ _ _).mpr ⟨hlater, hkey, hstate⟩, rfl⟩
      · intro episode hepisode later hlater hid
        rw [hstep] at hlater
        rw [row_of_id htidy _ hsettles episode hepisode later hlater hid]
        split
        · next hsame =>
            obtain rfl := htidy.eq_of_id episode active hepisode hmem hsame
            exact (horder key observedAt hobserved).1 episode hactive
        · exact le_refl _
  · -- the active episode is older than the gap, and with it every row of the key
    have hlate := gap_of_active h key active hactive observedAt hgap
    have hsettles := settles_cleared (·.episodeId = active.episodeId) observedAt
      .continuityWindowElapsed
    refine iff_of_true ⟨?_, ?_⟩ ?_
    · intro other time hsome
      obtain ⟨rfl, rfl⟩ := hthis other time hsome
      exact Or.inr (rearms_of_gap h _ _ hlate)
    · intro episode hepisode later hlater hid
      rw [hstep] at hlater
      rcases List.mem_append.mp hlater with hlater | hlater
      · rw [row_of_id htidy _ hsettles episode hepisode later hlater hid]
        split <;> exact le_refl _
      · obtain rfl := List.mem_singleton.mp hlater
        exact absurd hid.symm (ne_of_lt (htidy.id_lt episode hepisode))
    · intro other time hsome
      obtain ⟨rfl, rfl⟩ := hthis other time hsome
      refine ⟨?_, fun hempty => ?_⟩
      · intro episode hepisode
        obtain ⟨hepisodeMem, hepisodeKey, -⟩ := (mem_activeEpisodes table _ episode).mp hepisode
        have hgap := hlate episode hepisodeMem hepisodeKey
        linarith
      · rw [hempty] at hactive
        exact absurd hactive List.not_mem_nil
  · -- nothing is active, and nothing is asked
    constructor
    · rintro ⟨hjoins, -⟩ other time hsome
      obtain ⟨rfl, rfl⟩ := hthis other time hsome
      refine ⟨?_, fun _ => ?_⟩
      · intro episode hepisode
        rw [hnone] at hepisode
        exact absurd hepisode List.not_mem_nil
      · intro episode hepisode hkey
        rcases hjoins _ _ hobserved with ⟨joined, hjoined, -⟩ | hrearms
        · rw [hnone] at hjoined
          exact absurd hjoined List.not_mem_nil
        · exact hrearms _ (hkey ▸ h.ends episode hepisode)
    · intro horder
      refine ⟨?_, ?_⟩
      · intro other time hsome
        obtain ⟨rfl, rfl⟩ := hthis other time hsome
        exact Or.inr (rearms_of_gap h _ _ ((horder _ _ hobserved).2 hnone))
      · intro episode hepisode later hlater hid
        rw [hstep] at hlater
        rcases List.mem_append.mp hlater with hlater | hlater
        · rw [htidy.eq_of_id later episode hlater hepisode hid]
        · obtain rfl := List.mem_singleton.mp hlater
          exact absurd hid.symm (ne_of_lt (htidy.id_lt episode hepisode))

/-! ## Whole runs -/

section

variable (actions : List EpisodeAction)

theorem runEpisodes_tracked (h : Runs.InTurn (fun past action => InTimeOrder (runEpisodes digest past) action) actions) :
    Tracked actions (runEpisodes digest actions) := by
  induction actions using List.reverseRecOn with
  | nil =>
      refine ⟨?_, fun episode hmem => absurd hmem List.not_mem_nil,
        fun active hmem => absurd hmem List.not_mem_nil⟩
      intro key earlier hearlier
      exact absurd hearlier List.not_mem_nil
  | append_singleton actions action ih =>
      rw [Runs.inTurn_concat] at h
      rw [runEpisodes_concat]
      exact stepEpisodes_tracked digest actions _ action (runEpisodes_tidy digest actions) (ih h.1) h.2

theorem inTurn_kept_iff :
    (Runs.InTurn (JoinsOrRearms digest) actions ∧ Runs.InTurn (MovesForward digest) actions) ↔
      Runs.InTurn (fun past action => InTimeOrder (runEpisodes digest past) action) actions := by
  induction actions using List.reverseRecOn with
  | nil => exact iff_of_true ⟨Runs.inTurn_nil _, Runs.inTurn_nil _⟩ (Runs.inTurn_nil _)
  | append_singleton actions action ih =>
      rw [Runs.inTurn_concat, Runs.inTurn_concat, Runs.inTurn_concat, and_and_and_comm, ih]
      refine and_congr_right (fun horder => ?_)
      exact kept_step_iff digest actions action (runEpisodes_tracked digest actions horder)

/-- **Episodes.** At most one episode of a key is ever active; the rest is kept exactly in the runs
    whose observations come in time order. -/
theorem episodes_kept_iff :
    (∀ past rest, actions = past ++ rest → ∀ key,
      (activeEpisodes (runEpisodes digest past) key).length ≤ 1) ∧
    (EpisodesKept digest actions ↔
      Runs.InTurn (fun past action => InTimeOrder (runEpisodes digest past) action) actions) := by
  have hone : ∀ past rest, actions = past ++ rest → ∀ key,
      (activeEpisodes (runEpisodes digest past) key).length ≤ 1 := fun past _ _ key =>
    (runEpisodes_tidy digest past).length_activeEpisodes key
  refine ⟨hone, ?_⟩
  rw [← inTurn_kept_iff]
  exact ⟨fun h => ⟨h.joinsOrRearms, h.movesForward⟩, fun h => ⟨hone, h.1, h.2⟩⟩

end

end

/-- A surge seen at four minutes, then the record of minute zero, then one of minute six: the second
    takes the time back, and the third opens an episode two minutes after the first. -/
def backfilledSurge : List EpisodeAction :=
  let surge : Signal := { signalKey := some "600000.SH:watch:sector_surge" }
  let minutes (n : ℤ) : Timestamp := n * 60 * 1000000
  [.observe surge (minutes 4) "confirmed" (some "600000.SH"),
    .observe surge (minutes 0) "confirmed" (some "600000.SH"),
    .observe surge (minutes 6) "confirmed" (some "600000.SH")]

theorem backfilledSurge_not_kept : ¬ EpisodesKept (fun _ => "") backfilledSurge := by
  intro h
  refine absurd (h.movesForward (backfilledSurge.take 1) _ (backfilledSurge.drop 2) rfl) ?_
  unfold MovesForward
  decide +kernel

end TradingHarness
