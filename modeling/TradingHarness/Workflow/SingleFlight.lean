import TradingHarness.Library.Runs
import TradingHarness.Workflow.KeyedMemo

set_option autoImplicit false

/-! # Single flight

A caller that is cancelled takes the entry of its task with it, though the task runs on, and the next call of the
key starts a second fetch. Where no call meets a task without its entry, one fetch of a key runs at a time and
every caller is served. -/

namespace TradingHarness

/-! ## Places in a list -/

theorem getElem?_concat_cases {α : Type} {items : List α} {last item : α} {place : ℕ}
    (h : (items ++ [last])[place]? = some item) :
    items[place]? = some item ∨ (place = items.length ∧ item = last) := by
  rcases Nat.lt_or_ge place items.length with hlt | hge
  · rw [List.getElem?_append_left hlt] at h
    exact Or.inl h
  · rw [List.getElem?_append_right hge] at h
    rcases hrest : place - items.length with _ | rest
    · rw [hrest, List.getElem?_cons_zero] at h
      exact Or.inr ⟨by omega, (Option.some.inj h).symm⟩
    · rw [hrest, List.getElem?_cons_succ, List.getElem?_nil] at h
      exact absurd h (by simp)

theorem getElem?_concat_of_some {α : Type} {items : List α} {item : α} {place : ℕ} (last : α)
    (h : items[place]? = some item) : (items ++ [last])[place]? = some item := by
  rw [List.getElem?_append_left (List.getElem?_eq_some_iff.mp h).1]
  exact h

theorem getElem?_set_cases {α : Type} {items : List α} {value item : α} {place other : ℕ}
    (h : (items.set place value)[other]? = some item) :
    (other = place ∧ item = value) ∨ (other ≠ place ∧ items[other]? = some item) := by
  rw [List.getElem?_set] at h
  by_cases hplace : place = other
  · rw [if_pos hplace] at h
    split at h
    · exact Or.inl ⟨hplace.symm, (Option.some.inj h).symm⟩
    · exact absurd h (by simp)
  · rw [if_neg hplace] at h
    exact Or.inr ⟨Ne.symm hplace, h⟩

section Flights

variable {κ ν : Type} [DecidableEq κ] (settings : MemoSettings ν)

/-! ## What callers are promised -/

def Running (world : MemoWorld κ ν) (key : κ) (task : ℕ) : Prop :=
  world.tasks[task]? = some ⟨key, .running⟩

/-- At most one fetch of a key runs. -/
def SingleFlight (world : MemoWorld κ ν) : Prop :=
  ∀ key first second, Running world key first → Running world key second → first = second

/-- A call that the kept values do not answer finds the running task of its key in flight. -/
def Joins (world : MemoWorld κ ν) : MemoOp κ ν → Prop
  | .call key => freshValue settings key world = none →
      ∀ task, Running world key task → world.inflight.lookup key = some task
  | _ => True

/-- A caller stores a value at the time at which its task completed. -/
def Prompt (world : MemoWorld κ ν) : MemoOp κ ν → Prop
  | .resume call => ∀ key task other value time, world.calls[call]? = some ⟨key, .waiting task⟩ →
      world.tasks[task]? = some ⟨other, .completed value time⟩ → settings.cacheable value = true →
      world.now ≤ time
  | _ => True

/-- The fetch of a value was running when the call was made, or had completed within the time to live. -/
def Current (called world : MemoWorld κ ν) (key : κ) (value : ν) : Prop :=
  ∃ task time, world.tasks[task]? = some ⟨key, .completed value time⟩ ∧
    (Running called key task ∨ (called.tasks[task]? = some ⟨key, .completed value time⟩ ∧
      called.now - time ≤ settings.ttlSeconds))

/-- What has become of a call: it waits for a fetch that ran when it was made and returns its value when that is
    there, or it has a current value, or its fetch failed, or it was cancelled. -/
def Served (called : MemoWorld κ ν) (call : ℕ) (key : κ) (later : List (MemoOp κ ν)) (world : MemoWorld κ ν) :
    Prop :=
  (∃ task, world.calls[call]? = some ⟨key, .waiting task⟩ ∧ Running called key task ∧
    ∀ value time, world.tasks[task]? = some ⟨key, .completed value time⟩ →
      (memoStep settings (.resume call) world).calls[call]? = some ⟨key, .returned value⟩) ∨
  (∃ value, world.calls[call]? = some ⟨key, .returned value⟩ ∧ Current settings called world key value) ∨
  (∃ task, world.calls[call]? = some ⟨key, .raised task⟩ ∧ world.tasks[task]? = some ⟨key, .failed⟩) ∨
  (world.calls[call]? = some ⟨key, .cancelled⟩ ∧ .cancel call ∈ later)

/-! ## The invariant -/

structure MemoSound (world : MemoWorld κ ν) : Prop where
  entries : ∀ key task, world.inflight.lookup key = some task →
    ∃ state, world.tasks[task]? = some ⟨key, state⟩
  waiting : ∀ (call : ℕ) key task, world.calls[call]? = some ⟨key, .waiting task⟩ →
    ∃ state, world.tasks[task]? = some ⟨key, state⟩
  dated : ∀ entry ∈ world.cached, ∃ (task : ℕ) (time : ℚ),
    world.tasks[task]? = some ⟨entry.1, .completed entry.2.2 time⟩ ∧ entry.2.1 ≤ time
  bounded : world.cached.length ≤ settings.maxEntries
  single : SingleFlight world

/-- A task keeps its key, and its state once it has ended. -/
def TasksKept (before after : List (MemoTask κ ν)) : Prop :=
  ∀ (task : ℕ) key state, before[task]? = some ⟨key, state⟩ →
    ∃ later, after[task]? = some ⟨key, later⟩ ∧ (state ≠ .running → later = state)

variable {settings} {world : MemoWorld κ ν}

/-! ## Tasks -/

omit [DecidableEq κ] in
theorem TasksKept.refl (tasks : List (MemoTask κ ν)) : TasksKept tasks tasks :=
  fun _ _ state h => ⟨state, h, fun _ => rfl⟩

omit [DecidableEq κ] in
theorem TasksKept.trans {first second third : List (MemoTask κ ν)} (h : TasksKept first second)
    (h' : TasksKept second third) : TasksKept first third := by
  intro task key state hstate
  obtain ⟨middle, hmiddle, hfirst⟩ := h task key state hstate
  obtain ⟨later, hlater, hsecond⟩ := h' task key middle hmiddle
  refine ⟨later, hlater, fun hended => ?_⟩
  have hsame := hfirst hended
  rw [← hsame]
  exact hsecond (by rw [hsame]; exact hended)

omit [DecidableEq κ] in
theorem TasksKept.concat (tasks : List (MemoTask κ ν)) (last : MemoTask κ ν) : TasksKept tasks (tasks ++ [last]) :=
  fun _ _ state h => ⟨state, getElem?_concat_of_some last h, fun _ => rfl⟩

omit [DecidableEq κ] in
theorem tasksKept_endTask (task : ℕ) (state : TaskState ν) (world : MemoWorld κ ν) :
    TasksKept world.tasks (endTask task state world).tasks := by
  unfold endTask
  split
  next key hrunning =>
    intro other otherKey otherState h
    by_cases hsame : task = other
    · subst hsame
      rw [hrunning] at h
      obtain ⟨rfl, rfl⟩ := MemoTask.mk.inj (Option.some.inj h)
      refine ⟨state, ?_, fun hne => absurd rfl hne⟩
      rw [List.getElem?_set_self (List.getElem?_eq_some_iff.mp hrunning).1]
    · refine ⟨otherState, ?_, fun _ => rfl⟩
      rw [List.getElem?_set_ne hsame]
      exact h
  next => exact TasksKept.refl _

theorem tasksKept_await (key : κ) (world : MemoWorld κ ν) :
    TasksKept world.tasks (awaitTask key world).tasks := by
  unfold awaitTask
  split
  · split
    · exact TasksKept.concat _ _
    · exact TasksKept.refl _
  · exact TasksKept.concat _ _

theorem tasksKept_step (op : MemoOp κ ν) (world : MemoWorld κ ν) :
    TasksKept world.tasks (memoStep settings op world).tasks := by
  cases op with
  | tick time => exact TasksKept.refl _
  | call key =>
      change TasksKept world.tasks (startCall settings key world).tasks
      unfold startCall
      split
      · exact TasksKept.refl _
      · exact tasksKept_await key { world with cached := Dict.erase world.cached key }
  | complete task value => exact tasksKept_endTask task _ world
  | fail task => exact tasksKept_endTask task _ world
  | resume call =>
      change TasksKept world.tasks (resumeCall settings call world).tasks
      unfold resumeCall
      split
      · split <;> exact TasksKept.refl _
      · exact TasksKept.refl _
  | cancel call =>
      change TasksKept world.tasks (cancelCall call world).tasks
      unfold cancelCall
      split <;> exact TasksKept.refl _
  | clear => exact TasksKept.refl _

/-! ## Steps -/

theorem memoSound_empty : MemoSound settings ({} : MemoWorld κ ν) := by
  refine ⟨fun key task h => ?_, fun call key task h => ?_, fun entry h => ?_, Nat.zero_le _,
    fun key first second h => ?_⟩
  · exact absurd h (by simp)
  · exact absurd h (by simp)
  · exact absurd h List.not_mem_nil
  · exact absurd h (by simp [Running])

omit [DecidableEq κ] in
theorem TasksKept.known {before after : List (MemoTask κ ν)} (h : TasksKept before after) {task : ℕ} {key : κ}
    (hbefore : ∃ state, before[task]? = some ⟨key, state⟩) : ∃ state, after[task]? = some ⟨key, state⟩ := by
  obtain ⟨state, hstate⟩ := hbefore
  obtain ⟨later, hlater, -⟩ := h task key state hstate
  exact ⟨later, hlater⟩

omit [DecidableEq κ] in
theorem TasksKept.ended {before after : List (MemoTask κ ν)} (h : TasksKept before after) {task : ℕ} {key : κ}
    {state : TaskState ν} (hbefore : before[task]? = some ⟨key, state⟩) (hended : state ≠ .running) :
    after[task]? = some ⟨key, state⟩ := by
  obtain ⟨later, hlater, hsame⟩ := h task key state hbefore
  rw [hlater, hsame hended]

omit [DecidableEq κ] in
theorem TasksKept.completed {before after : List (MemoTask κ ν)} (h : TasksKept before after)
    {entry : κ × (ℚ × ν)} (hbefore : ∃ (task : ℕ) (time : ℚ),
      before[task]? = some ⟨entry.1, .completed entry.2.2 time⟩ ∧ entry.2.1 ≤ time) :
    ∃ (task : ℕ) (time : ℚ), after[task]? = some ⟨entry.1, .completed entry.2.2 time⟩ ∧ entry.2.1 ≤ time := by
  obtain ⟨task, time, htask, htime⟩ := hbefore
  exact ⟨task, time, h.ended htask (by simp), htime⟩

theorem memoSound_create (h : MemoSound settings world) {key : κ} (hnone : ∀ task, ¬ Running world key task) :
    MemoSound settings (createTask key world) := by
  have hkept : TasksKept world.tasks (world.tasks ++ [⟨key, .running⟩]) := TasksKept.concat _ _
  have hnew : (world.tasks ++ [(⟨key, .running⟩ : MemoTask κ ν)])[world.tasks.length]? = some ⟨key, .running⟩ :=
    List.getElem?_concat_length
  refine ⟨?_, ?_, fun entry hentry => hkept.completed (h.dated entry hentry), h.bounded, ?_⟩
  · intro other task hother
    change (Dict.set world.inflight key world.tasks.length).lookup other = some task at hother
    rw [Dict.lookup_set] at hother
    split at hother
    next hsame =>
      rw [eq_of_beq hsame, ← Option.some.inj hother]
      exact ⟨_, hnew⟩
    next => exact hkept.known (h.entries other task hother)
  · intro call other task hcall
    rcases getElem?_concat_cases hcall with hold | ⟨-, hlast⟩
    · exact hkept.known (h.waiting call other task hold)
    · obtain ⟨rfl, hwaiting⟩ := MemoCall.mk.inj hlast
      rw [CallState.waiting.inj hwaiting]
      exact ⟨_, hnew⟩
  · -- the new task is the only one of its key
    have hcases : ∀ other task, Running (createTask key world) other task →
        Running world other task ∨ (task = world.tasks.length ∧ other = key) := by
      intro other task hrunning
      rcases getElem?_concat_cases hrunning with hold | ⟨hplace, hlast⟩
      · exact Or.inl hold
      · exact Or.inr ⟨hplace, (MemoTask.mk.inj hlast).1⟩
    intro other first second hfirst hsecond
    rcases hcases other first hfirst with hold | ⟨rfl, rfl⟩
    · rcases hcases other second hsecond with hold' | ⟨rfl, rfl⟩
      · exact h.single other first second hold hold'
      · exact absurd hold (hnone first)
    · rcases hcases _ second hsecond with hold' | ⟨rfl, -⟩
      · exact absurd hold' (hnone second)
      · rfl

theorem memoSound_join (h : MemoSound settings world) {key : κ} {task : ℕ}
    (hentry : world.inflight.lookup key = some task) :
    MemoSound settings { world with calls := world.calls ++ [⟨key, .waiting task⟩] } := by
  refine ⟨h.entries, ?_, h.dated, h.bounded, h.single⟩
  intro call other task' hcall
  rcases getElem?_concat_cases hcall with hold | ⟨-, hlast⟩
  · exact h.waiting call other task' hold
  · obtain ⟨rfl, hwaiting⟩ := MemoCall.mk.inj hlast
    rw [CallState.waiting.inj hwaiting]
    exact h.entries other task hentry

omit [DecidableEq κ] in
theorem not_running_of_done {task : ℕ} {key : κ} (h : world.done task = true) : ¬ Running world key task := by
  intro hrunning
  unfold MemoWorld.done at h
  rw [hrunning] at h
  exact absurd h (by simp)

theorem memoSound_call (h : MemoSound settings world) (key : κ) (hjoins : Joins settings world (.call key)) :
    MemoSound settings (startCall settings key world) := by
  unfold startCall
  split
  next value hfresh =>
    refine ⟨h.entries, ?_, h.dated, h.bounded, h.single⟩
    intro call other task hcall
    rcases getElem?_concat_cases hcall with hold | ⟨-, hlast⟩
    · exact h.waiting call other task hold
    · exact absurd (MemoCall.mk.inj hlast).2 (by simp)
  next hfresh =>
    have herased : MemoSound settings { world with cached := Dict.erase world.cached key } :=
      ⟨h.entries, h.waiting, fun entry hentry => h.dated entry (Dict.mem_erase hentry),
        (List.length_filter_le _ _).trans h.bounded, h.single⟩
    unfold awaitTask
    split
    next task hentry =>
      split
      next hdone =>
        refine memoSound_create herased (fun other hrunning => ?_)
        have hsame := hjoins hfresh other hrunning
        rw [Option.some.inj (hsame.symm.trans hentry)] at hrunning
        exact not_running_of_done hdone hrunning
      next => exact memoSound_join herased hentry
    next hentry =>
      refine memoSound_create herased (fun other hrunning => ?_)
      have hsame := hjoins hfresh other hrunning
      exact absurd (hsame.symm.trans hentry) (by simp)

theorem memoSound_endTask (h : MemoSound settings world) (task : ℕ) {state : TaskState ν}
    (hstate : state ≠ .running) : MemoSound settings (endTask task state world) := by
  have hkept := tasksKept_endTask task state world
  unfold endTask at hkept ⊢
  split
  next key hrunning =>
    rw [hrunning] at hkept
    refine ⟨fun other task' hentry => hkept.known (h.entries other task' hentry),
      fun call other task' hcall => hkept.known (h.waiting call other task' hcall),
      fun entry hentry => hkept.completed (h.dated entry hentry), h.bounded, ?_⟩
    have hold : ∀ other task', Running { world with tasks := world.tasks.set task ⟨key, state⟩ } other task' →
        Running world other task' := by
      intro other task' hafter
      rcases getElem?_set_cases hafter with ⟨-, hsame⟩ | ⟨-, hsame⟩
      · exact absurd (MemoTask.mk.inj hsame).2.symm hstate
      · exact hsame
    exact fun other first second hfirst hsecond =>
      h.single other first second (hold other first hfirst) (hold other second hsecond)
  next => exact h

theorem lookup_dropEntry {key other : κ} {task task' : ℕ} {inflight : List (κ × ℕ)}
    (h : (dropEntry key task inflight).lookup other = some task') : inflight.lookup other = some task' := by
  unfold dropEntry at h
  split at h
  · rw [Dict.lookup_erase] at h
    split at h
    · exact absurd h (by simp)
    · exact h
  · exact h

theorem memoSound_leave (h : MemoSound settings world) (call : ℕ) (key : κ) (task : ℕ) {state : CallState ν}
    (hstate : ∀ task, state ≠ .waiting task) :
    MemoSound settings { world with
      inflight := dropEntry key task world.inflight
      calls := world.calls.set call ⟨key, state⟩ } := by
  refine ⟨fun other task' hentry => h.entries other task' (lookup_dropEntry hentry), ?_, h.dated, h.bounded,
    h.single⟩
  intro other otherKey task' hcall
  rcases getElem?_set_cases hcall with ⟨-, hsame⟩ | ⟨-, hsame⟩
  · exact absurd (MemoCall.mk.inj hsame).2.symm (hstate task')
  · exact h.waiting other otherKey task' hsame

/-! ## Stored values -/

theorem mem_popOldest {cached : List (κ × (ℚ × ν))} {entry : κ × (ℚ × ν)} (h : entry ∈ popOldest cached) :
    entry ∈ cached := by
  unfold popOldest at h
  split at h
  · exact Dict.mem_erase h
  · exact h

theorem length_popOldest_lt {cached : List (κ × (ℚ × ν))} (h : cached ≠ []) :
    (popOldest cached).length < cached.length := by
  unfold popOldest
  split
  next entry hentry => exact Dict.length_erase_lt (List.argmin_mem hentry)
  next hnone => exact absurd (List.argmin_eq_none.mp hnone) h

theorem mem_popWhile {maxEntries rounds : ℕ} {cached : List (κ × (ℚ × ν))} {entry : κ × (ℚ × ν)}
    (h : entry ∈ popWhile maxEntries rounds cached) : entry ∈ cached := by
  induction rounds generalizing cached with
  | zero => exact h
  | succ rounds ih =>
      unfold popWhile at h
      split at h
      · exact mem_popOldest (ih h)
      · exact h

theorem length_popWhile_le {maxEntries rounds : ℕ} {cached : List (κ × (ℚ × ν))}
    (h : cached.length ≤ maxEntries + rounds) : (popWhile maxEntries rounds cached).length ≤ maxEntries := by
  induction rounds generalizing cached with
  | zero => exact h
  | succ rounds ih =>
      unfold popWhile
      split
      next hover =>
        have hne : cached ≠ [] := List.ne_nil_of_length_pos (Nat.zero_lt_of_lt hover)
        have hlt := length_popOldest_lt hne
        exact ih (by omega)
      next hunder => exact Nat.le_of_not_lt hunder

theorem mem_storeValue {key : κ} {value : ν} {now : ℚ} {cached : List (κ × (ℚ × ν))} {entry : κ × (ℚ × ν)}
    (h : entry ∈ storeValue settings key value now cached) :
    (settings.cacheable value = true ∧ entry = (key, (now, value))) ∨ entry ∈ cached := by
  unfold storeValue at h
  split at h
  next hcacheable => exact (Dict.mem_set (mem_popWhile h)).imp_left (fun hsame => ⟨hcacheable, hsame⟩)
  next => exact Or.inr h

theorem length_storeValue_le {key : κ} {value : ν} {now : ℚ} {cached : List (κ × (ℚ × ν))}
    (h : cached.length ≤ settings.maxEntries) :
    (storeValue settings key value now cached).length ≤ settings.maxEntries := by
  unfold storeValue
  split
  · exact length_popWhile_le (Nat.le_add_left _ _)
  · exact h

theorem memoSound_resume (h : MemoSound settings world) (call : ℕ)
    (hprompt : Prompt settings world (.resume call)) : MemoSound settings (resumeCall settings call world) := by
  unfold resumeCall
  split
  next key task hcall =>
    split
    next other value time htask =>
      have hleft : MemoSound settings { world with
          inflight := dropEntry key task world.inflight
          calls := world.calls.set call ⟨key, .returned value⟩ } :=
        memoSound_leave h call key task (fun _ => by simp)
      refine ⟨hleft.entries, hleft.waiting, ?_, length_storeValue_le h.bounded, h.single⟩
      intro entry hentry
      rcases mem_storeValue hentry with ⟨hcacheable, rfl⟩ | hold
      · obtain ⟨state, hstate⟩ := h.waiting call key task hcall
        rw [htask] at hstate
        obtain ⟨rfl, -⟩ := MemoTask.mk.inj (Option.some.inj hstate)
        exact ⟨task, time, htask, hprompt other task other value time hcall htask hcacheable⟩
      · exact h.dated entry hold
    next => exact memoSound_leave h call key task (fun _ => by simp)
    next => exact h
  next => exact h

theorem memoSound_step (h : MemoSound settings world) (op : MemoOp κ ν) (hjoins : Joins settings world op)
    (hprompt : Prompt settings world op) : MemoSound settings (memoStep settings op world) := by
  cases op with
  | tick time => exact ⟨h.entries, h.waiting, h.dated, h.bounded, h.single⟩
  | call key => exact memoSound_call h key hjoins
  | complete task value => exact memoSound_endTask h task (by simp)
  | fail task => exact memoSound_endTask h task (by simp)
  | resume call => exact memoSound_resume h call hprompt
  | cancel call =>
      change MemoSound settings (cancelCall call world)
      unfold cancelCall
      split
      next key task hcall => exact memoSound_leave h call key task (fun _ => by simp)
      next => exact h
  | clear =>
      exact ⟨h.entries, h.waiting, fun entry hentry => absurd hentry List.not_mem_nil, Nat.zero_le _, h.single⟩

theorem memoSound_run (settings : MemoSettings ν) (ops : List (MemoOp κ ν))
    (hops : Runs.InTurn (fun before op => Joins settings (memoAfter settings before) op ∧
      Prompt settings (memoAfter settings before) op) ops) : MemoSound settings (memoAfter settings ops) := by
  induction ops using List.reverseRecOn with
  | nil => exact memoSound_empty
  | append_singleton ops op ih =>
      obtain ⟨hbefore, hjoins, hprompt⟩ := (Runs.inTurn_concat _ ops op).mp hops
      rw [memoAfter_concat]
      exact memoSound_step (ih hbefore) op hjoins hprompt

/-! ## Callers -/

theorem resume_returns {call task : ℕ} {key other : κ} {value : ν} {time : ℚ}
    (hcall : world.calls[call]? = some ⟨key, .waiting task⟩)
    (htask : world.tasks[task]? = some ⟨other, .completed value time⟩) :
    (memoStep settings (.resume call) world).calls[call]? = some ⟨key, .returned value⟩ := by
  change (resumeCall settings call world).calls[call]? = _
  unfold resumeCall
  rw [hcall]
  dsimp only
  rw [htask]
  exact List.getElem?_set_self (List.getElem?_eq_some_iff.mp hcall).1

theorem calls_await (key : κ) (world : MemoWorld κ ν) :
    ∃ task, (awaitTask key world).calls = world.calls ++ [⟨key, .waiting task⟩] := by
  unfold awaitTask
  split
  · split
    · exact ⟨_, rfl⟩
    · exact ⟨_, rfl⟩
  · exact ⟨_, rfl⟩

theorem calls_start (settings : MemoSettings ν) (key : κ) (world : MemoWorld κ ν) :
    ∃ state, (startCall settings key world).calls = world.calls ++ [⟨key, state⟩] := by
  unfold startCall
  split
  · exact ⟨_, rfl⟩
  · obtain ⟨task, hcalls⟩ := calls_await key { world with cached := Dict.erase world.cached key }
    exact ⟨_, hcalls⟩

theorem call_resume (other : ℕ) {call : ℕ} {key : κ} {state : CallState ν}
    (h : world.calls[call]? = some ⟨key, state⟩) :
    (resumeCall settings other world).calls[call]? = some ⟨key, state⟩ ∨
    (∃ task found value time, state = .waiting task ∧
      world.tasks[task]? = some ⟨found, .completed value time⟩ ∧
      (resumeCall settings other world).calls[call]? = some ⟨key, .returned value⟩) ∨
    (∃ task found, state = .waiting task ∧ world.tasks[task]? = some ⟨found, .failed⟩ ∧
      (resumeCall settings other world).calls[call]? = some ⟨key, .raised task⟩) := by
  unfold resumeCall
  by_cases hsame : other = call
  · subst hsame
    have hself : ∀ after : MemoCall κ ν, (world.calls.set other after)[other]? = some after :=
      fun after => List.getElem?_set_self (List.getElem?_eq_some_iff.mp h).1
    rw [h]
    rcases state with task | value | task | _
    · dsimp only
      split
      next found value time htask => exact Or.inr (Or.inl ⟨task, found, value, time, rfl, htask, hself _⟩)
      next found htask => exact Or.inr (Or.inr ⟨task, found, rfl, htask, hself _⟩)
      next => exact Or.inl h
    · exact Or.inl h
    · exact Or.inl h
    · exact Or.inl h
  · refine Or.inl ?_
    split
    · split
      · exact (List.getElem?_set_ne hsame).trans h
      · exact (List.getElem?_set_ne hsame).trans h
      · exact h
    · exact h

omit [DecidableEq κ] in
theorem call_endTask (task : ℕ) (ended : TaskState ν) {call : ℕ} {after : MemoCall κ ν}
    (h : world.calls[call]? = some after) : (endTask task ended world).calls[call]? = some after := by
  unfold endTask
  split <;> exact h

theorem call_cancel (other : ℕ) {call : ℕ} {key : κ} {state : CallState ν}
    (h : world.calls[call]? = some ⟨key, state⟩) :
    (cancelCall other world).calls[call]? = some ⟨key, state⟩ ∨
      (∃ task, state = .waiting task ∧ other = call ∧
        (cancelCall other world).calls[call]? = some ⟨key, .cancelled⟩) := by
  unfold cancelCall
  by_cases hsame : other = call
  · subst hsame
    rw [h]
    rcases state with task | value | task | _
    · exact Or.inr ⟨task, rfl, rfl, List.getElem?_set_self (List.getElem?_eq_some_iff.mp h).1⟩
    · exact Or.inl h
    · exact Or.inl h
    · exact Or.inl h
  · refine Or.inl ?_
    split
    · exact (List.getElem?_set_ne hsame).trans h
    · exact h

/-- A call stays, ends as its task has, or is cancelled. -/
theorem call_step (settings : MemoSettings ν) (op : MemoOp κ ν) {call : ℕ} {key : κ} {state : CallState ν}
    (h : world.calls[call]? = some ⟨key, state⟩) :
    (memoStep settings op world).calls[call]? = some ⟨key, state⟩ ∨
    (∃ task found value time, state = .waiting task ∧
      world.tasks[task]? = some ⟨found, .completed value time⟩ ∧
      (memoStep settings op world).calls[call]? = some ⟨key, .returned value⟩) ∨
    (∃ task found, state = .waiting task ∧ world.tasks[task]? = some ⟨found, .failed⟩ ∧
      (memoStep settings op world).calls[call]? = some ⟨key, .raised task⟩) ∨
    (∃ task, state = .waiting task ∧ op = .cancel call ∧
      (memoStep settings op world).calls[call]? = some ⟨key, .cancelled⟩) := by
  cases op with
  | tick time => exact Or.inl h
  | call other =>
      obtain ⟨added, hcalls⟩ := calls_start settings other world
      refine Or.inl ?_
      change (startCall settings other world).calls[call]? = _
      rw [hcalls]
      exact getElem?_concat_of_some _ h
  | complete task value => exact Or.inl (call_endTask task _ h)
  | fail task => exact Or.inl (call_endTask task _ h)
  | resume other =>
      rcases call_resume other h with hsame | hreturned | hraised
      · exact Or.inl hsame
      · exact Or.inr (Or.inl hreturned)
      · exact Or.inr (Or.inr (Or.inl hraised))
  | cancel other =>
      rcases call_cancel other h with hsame | ⟨task, hwaiting, rfl, hcancelled⟩
      · exact Or.inl hsame
      · exact Or.inr (Or.inr (Or.inr ⟨task, hwaiting, rfl, hcancelled⟩))
  | clear => exact Or.inl h

theorem served_start (h : MemoSound settings world) (key : κ) :
    Served settings (startCall settings key world) world.calls.length key [] (startCall settings key world) := by
  unfold startCall
  split
  next value hfresh =>
    refine Or.inr (Or.inl ⟨value, List.getElem?_concat_length, ?_⟩)
    unfold freshValue at hfresh
    split at hfresh
    next stored found hlookup =>
      split at hfresh
      next hage =>
        obtain rfl := Option.some.inj hfresh
        obtain ⟨task, time, htask, htime⟩ := h.dated _ (Dict.mem_of_lookup _ _ _ hlookup)
        refine ⟨task, time, htask, Or.inr ⟨htask, ?_⟩⟩
        exact (sub_le_sub_left htime world.now).trans hage
      next => exact absurd hfresh (by simp)
    next => exact absurd hfresh (by simp)
  next =>
    have hcreate : ∀ cached, Served settings (createTask key { world with cached := cached })
        world.calls.length key [] (createTask key { world with cached := cached }) := by
      intro cached
      exact Or.inl ⟨world.tasks.length, List.getElem?_concat_length, List.getElem?_concat_length,
        fun value time => resume_returns List.getElem?_concat_length⟩
    unfold awaitTask
    split
    next task hentry =>
      split
      next => exact hcreate _
      next hrunning =>
        refine Or.inl ⟨task, List.getElem?_concat_length, ?_, fun value time =>
          resume_returns List.getElem?_concat_length⟩
        obtain ⟨state, hstate⟩ := h.entries key task hentry
        change world.tasks[task]? = _
        unfold MemoWorld.done at hrunning
        rcases state with _ | _ | _
        · exact hstate
        · exact absurd (by rw [hstate]) hrunning
        · exact absurd (by rw [hstate]) hrunning
    next => exact hcreate _

theorem served_step {called : MemoWorld κ ν} {call : ℕ} {key : κ} {later : List (MemoOp κ ν)}
    (hkept : TasksKept called.tasks world.tasks) (h : Served settings called call key later world)
    (op : MemoOp κ ν) : Served settings called call key (later ++ [op]) (memoStep settings op world) := by
  have hstep : TasksKept world.tasks (memoStep settings op world).tasks := tasksKept_step op world
  rcases h with ⟨task, hcall, hrunning, hreturns⟩ | ⟨value, hcall, hcurrent⟩ | ⟨task, hcall, hfailed⟩ |
    ⟨hcall, hcancel⟩
  · -- the task that the call awaits is a fetch of its key
    obtain ⟨state, hstate, -⟩ := hkept task key .running hrunning
    rcases call_step settings op hcall with
      hsame | ⟨_, other, value, time, hwaiting, htask, hafter⟩ | ⟨_, other, hwaiting, htask, hafter⟩ |
        ⟨_, -, rfl, hafter⟩
    · exact Or.inl ⟨task, hsame, hrunning, fun value time => resume_returns hsame⟩
    · obtain rfl := CallState.waiting.inj hwaiting
      rw [hstate] at htask
      obtain ⟨rfl, rfl⟩ := MemoTask.mk.inj (Option.some.inj htask)
      exact Or.inr (Or.inl ⟨value, hafter, task, time, hstep.ended hstate (by simp), Or.inl hrunning⟩)
    · obtain rfl := CallState.waiting.inj hwaiting
      rw [hstate] at htask
      obtain ⟨rfl, rfl⟩ := MemoTask.mk.inj (Option.some.inj htask)
      exact Or.inr (Or.inr (Or.inl ⟨task, hafter, hstep.ended hstate (by simp)⟩))
    · exact Or.inr (Or.inr (Or.inr ⟨hafter, List.mem_append_right _ List.mem_cons_self⟩))
  · obtain ⟨task, time, htask, hwhen⟩ := hcurrent
    have hafter := (call_step settings op hcall).resolve_right (by simp)
    exact Or.inr (Or.inl ⟨value, hafter, task, time, hstep.ended htask (by simp), hwhen⟩)
  · have hafter := (call_step settings op hcall).resolve_right (by simp)
    exact Or.inr (Or.inr (Or.inl ⟨task, hafter, hstep.ended hfailed (by simp)⟩))
  · have hafter := (call_step settings op hcall).resolve_right (by simp)
    exact Or.inr (Or.inr (Or.inr ⟨hafter, List.mem_append_left _ hcancel⟩))

/-- A call is served from then on. -/
theorem served_run (settings : MemoSettings ν) {before : List (MemoOp κ ν)} {key : κ}
    (hsound : MemoSound settings (memoAfter settings before)) (later : List (MemoOp κ ν)) :
    TasksKept (memoAfter settings (before ++ [.call key])).tasks
      (memoAfter settings (before ++ .call key :: later)).tasks ∧
    Served settings (memoAfter settings (before ++ [.call key])) (memoAfter settings before).calls.length key later
      (memoAfter settings (before ++ .call key :: later)) := by
  induction later using List.reverseRecOn with
  | nil =>
      refine ⟨TasksKept.refl _, ?_⟩
      rw [memoAfter_concat]
      exact served_start hsound key
  | append_singleton later op ih =>
      have hsplit : before ++ .call key :: (later ++ [op]) = (before ++ .call key :: later) ++ [op] := by
        rw [List.append_assoc, List.cons_append]
      rw [hsplit, memoAfter_concat settings (before ++ .call key :: later)]
      exact ⟨ih.1.trans (tasksKept_step op _), served_step ih.1 ih.2 op⟩

/-- **Where no call meets a running task without its entry, and callers store their values at once**, one fetch
    of a key runs at a time, every call is served, what is kept are values of fetches, and there are at most
    `maxEntries` of them. -/
theorem memo_serves (settings : MemoSettings ν) (ops : List (MemoOp κ ν))
    (hops : Runs.InTurn (fun before op => Joins settings (memoAfter settings before) op ∧
      Prompt settings (memoAfter settings before) op) ops) :
    SingleFlight (memoAfter settings ops) ∧
    (∀ before key later, ops = before ++ .call key :: later →
      Served settings (memoAfter settings (before ++ [.call key])) (memoAfter settings before).calls.length key
        later (memoAfter settings ops)) ∧
    (∀ entry ∈ (memoAfter settings ops).cached, ∃ (task : ℕ) (time : ℚ),
      (memoAfter settings ops).tasks[task]? = some ⟨entry.1, .completed entry.2.2 time⟩) ∧
    (memoAfter settings ops).cached.length ≤ settings.maxEntries := by
  have hsound := memoSound_run settings ops hops
  refine ⟨hsound.single, ?_, ?_, hsound.bounded⟩
  · rintro before key later rfl
    exact (served_run settings (memoSound_run settings before hops.left) later).2
  · intro entry hentry
    obtain ⟨task, time, htask, -⟩ := hsound.dated entry hentry
    exact ⟨task, time, htask⟩

end Flights

/-! ## A cancelled caller -/

def eightValues : MemoSettings ℕ := MemoSettings.ofArguments 60 (fun _ => true) 8

/-- Two callers of one key share a fetch. -/
def sharedFetch : List (MemoOp Char ℕ) :=
  [] ++ [.call 'k'] ++ [.call 'k'] ++ [.complete 0 7] ++ [.resume 0] ++ [.resume 1]

theorem completedAtOnce {world : MemoWorld Char ℕ} (call : ℕ) (hnow : world.now = 0)
    (htasks : world.tasks = [⟨'k', .completed 7 0⟩]) : Prompt eightValues world (.resume call) := by
  intro key task other value time _ htask _
  rw [htasks] at htask
  rcases task with _ | task
  · obtain ⟨-, hstate⟩ := MemoTask.mk.inj (Option.some.inj htask)
    rw [hnow, (TaskState.completed.inj hstate).2]
  · exact absurd htask (by simp)

theorem memo_serves_sharedFetch :
    ∃ (task : ℕ) (time : ℚ),
      (memoAfter eightValues sharedFetch).tasks[task]? = some ⟨'k', .completed 7 time⟩ := by
  have hops : Runs.InTurn (fun before op => Joins eightValues (memoAfter eightValues before) op ∧
      Prompt eightValues (memoAfter eightValues before) op) sharedFetch := by
    unfold sharedFetch
    rw [Runs.inTurn_concat, Runs.inTurn_concat, Runs.inTurn_concat, Runs.inTurn_concat, Runs.inTurn_concat]
    refine ⟨⟨⟨⟨⟨Runs.inTurn_nil _, ?_, trivial⟩, ?_, trivial⟩, trivial, trivial⟩, trivial, ?_⟩, trivial, ?_⟩
    · intro _ task hrunning
      exact absurd hrunning (by simp [Running, memoAfter])
    · intro _ task hrunning
      have htasks : (memoAfter eightValues ([] ++ [.call 'k'])).tasks = [⟨'k', .running⟩] := by decide +kernel
      unfold Running at hrunning
      rw [htasks] at hrunning
      rcases task with _ | task
      · decide +kernel
      · exact absurd hrunning (by simp)
    · exact completedAtOnce _ rfl (by decide +kernel)
    · exact completedAtOnce _ rfl (by decide +kernel)
  exact (memo_serves eightValues sharedFetch hops).2.2.1 ('k', (0, 7)) (by decide +kernel)

/-- The first caller is cancelled while its fetch runs, and the second starts another. -/
theorem cancelled_caller_frees_key :
    ¬ SingleFlight (memoAfter eightValues ([.call 'k', .cancel 0, .call 'k'] : List (MemoOp Char ℕ))) := by
  intro h
  exact absurd (h 'k' 0 1 (by unfold Running; decide +kernel) (by unfold Running; decide +kernel)) (by decide)

end TradingHarness
