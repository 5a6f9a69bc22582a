import TradingHarness.Intraday.Indicators

set_option autoImplicit false

/-! # Streaming and batch

A seed advanced by the running session is the seed computed with that session as one more bar. -/

namespace TradingHarness.Indicators

/-! ## The loop on one more bar -/

section Loop

variable {F : Type} [Arithmetic F]

theorem pricesOf_concat {bars : List (Bar F)} {prices : List (Prices F)} {live : Bar F} {price high low : F}
    (h : pricesOf bars = some prices) (hclose : number live.close = some price) (hhigh : number live.high = some high)
    (hlow : number live.low = some low) : pricesOf (bars ++ [live]) = some (prices ++ [⟨price, high, low⟩]) := by
  unfold pricesOf at h ⊢
  rw [List.mapM_append, h]
  simp [hclose, hhigh, hlow]

theorem seedBar_concat {prices : List (Prices F)} (last : Prices F) (state : SeedState F) {entry : Prices F × ℕ}
    (h : entry ∈ prices.zipIdx) : seedBar (prices ++ [last]) state entry = seedBar prices state entry := by
  have hindex := List.snd_lt_of_mem_zipIdx h
  rw [Nat.add_zero] at hindex
  unfold seedBar smoothBar
  rw [List.take_append_of_le_length (Nat.succ_le_of_lt hindex)]

theorem seedLoop_concat (prices : List (Prices F)) (last : Prices F) (start : SeedState F) :
    (prices ++ [last]).zipIdx.foldl (seedBar (prices ++ [last])) start
      = seedBar (prices ++ [last]) (prices.zipIdx.foldl (seedBar prices) start) (last, prices.length) := by
  rw [List.zipIdx_append, List.foldl_append, List.foldl_ext _ (seedBar prices) start
    (fun state entry hentry => seedBar_concat last state hentry)]
  simp

theorem ranges_drop {bars : List (Bar F)} {prices : List (Prices F)} (h : pricesOf bars = some prices) (count : ℕ) :
    bars.length = prices.length
      ∧ ranges (bars.drop count) = some ((prices.drop count).map (fun bar => (bar.high, bar.low))) := by
  induction bars generalizing prices count with
  | nil =>
      obtain rfl : [] = prices := by simpa [pricesOf] using h
      simp [ranges]
  | cons bar rest ih =>
      simp only [pricesOf, List.mapM_cons, Option.bind_eq_bind, Option.bind_eq_some_iff, Option.pure_def,
        Option.some.injEq] at h
      obtain ⟨first, ⟨close, -, high, hhigh, low, hlow, rfl⟩, others, hothers, rfl⟩ := h
      cases count with
      | zero =>
          obtain ⟨hlength, hranges⟩ := ih hothers 0
          unfold ranges at hranges ⊢
          rw [List.drop_zero, List.mapM_cons, ← List.drop_zero (l := rest), hranges]
          simp [hhigh, hlow, hlength]
      | succ count => simpa using ih hothers count

/-- The window of the last bar is the window of the bars before it, merged with its own range. -/
theorem kdjWindowBounds_of_prices {bars : List (Bar F)} {prices : List (Prices F)} {sessionHigh sessionLow : Option F}
    {high low : F} (h : pricesOf bars = some prices) (hlong : kdjWindowSessions ≤ bars.length)
    (hhigh : number sessionHigh = some high) (hlow : number sessionLow = some low) (price : F) :
    ∃ first rest, ((prices ++ [Prices.mk price high low]).take (prices.length + 1)).drop
        (prices.length + 1 - kdjWindowSessions) = first :: rest
      ∧ kdjWindowBounds bars sessionHigh sessionLow
        = some (maxOf first.high (rest.map Prices.high), minOf first.low (rest.map Prices.low)) := by
  obtain ⟨hlength, hranges⟩ := ranges_drop h (bars.length - (kdjWindowSessions - 1))
  have hwindow : (prices.drop (prices.length + 1 - kdjWindowSessions)).length = kdjWindowSessions - 1 := by
    rw [List.length_drop]
    unfold kdjWindowSessions at hlong ⊢
    omega
  rcases hprior : prices.drop (prices.length + 1 - kdjWindowSessions) with - | ⟨first, rest⟩
  · rw [hprior] at hwindow
    simp [kdjWindowSessions] at hwindow
  refine ⟨first, rest ++ [⟨price, high, low⟩], ?_, ?_⟩
  · rw [List.take_of_length_le (by simp), List.drop_append_of_le_length, hprior, List.cons_append]
    unfold kdjWindowSessions at hlong ⊢
    omega
  · have hplace : bars.length - (kdjWindowSessions - 1) = prices.length + 1 - kdjWindowSessions := by
      unfold kdjWindowSessions at hlong ⊢
      omega
    rw [hplace, hprior] at hranges
    unfold kdjWindowBounds
    rw [List.rtake, hplace, hranges, hhigh, hlow]
    dsimp only
    rw [if_neg (by rw [List.length_map, ← hprior, hwindow]; exact lt_irrefl _), List.map_cons]
    simp [Function.comp_def]

end Loop

/-! ## One step of the seed -/

/-- Exact arithmetic that rounds nothing. -/
def Exact : Type := ℚ

instance : Arithmetic Exact where
  add := fun x y : ℚ => x + y
  sub := fun x y : ℚ => x - y
  mul := fun x y : ℚ => x * y
  div := fun x y : ℚ => x / y
  natCast n := (n : ℚ)
  eq := fun x y : ℚ => x == y
  lt := fun x y : ℚ => decide (x < y)
  round x _ := x

theorem number_exact (x : Exact) : number (some x) = some x := by
  have hself : Arithmetic.eq x x = true := beq_self_eq_true (α := ℚ) x
  simp [number, Option.filter, hself]

theorem sub_sub_exact (x y : Exact) : x - (x - y) = y := sub_sub_cancel (G := ℚ) x y

theorem lt_zero_sub_exact (low high : Exact) :
    Arithmetic.lt ((0 : ℕ) : Exact) (high - low) = Arithmetic.lt low high := by
  have hiff : ∀ x y : ℚ, ((0 : ℕ) : ℚ) < y - x ↔ x < y := fun x y => by rw [Nat.cast_zero, sub_pos]
  exact decide_eq_decide.mpr (hiff low high)

theorem round_exact (x : Exact) (digits : ℕ) : Arithmetic.round x digits = x := rfl

theorem advanceMacd_of_state (row : FactorRow Exact) (state : SeedState Exact) (hfast : row.expma12 = state.emaFast)
    (hdif : row.macdDif = state.emaFast - state.emaSlow) (hdea : row.macdDea = state.dea) (price : Exact) {index : ℕ}
    (hindex : index ≠ 0) : ∃ macd, advanceMacd (macdSeed row row.basis) (some price) = some macd
      ∧ macd.dif = (averageBar state index price).emaFast - (averageBar state index price).emaSlow
      ∧ macd.dea = (averageBar state index price).dea := by
  unfold macdSeed factor advanceMacd averageBar
  rw [if_pos rfl, if_pos rfl, if_pos rfl, if_neg hindex, hfast, hdif, hdea]
  simp only [number_exact, sub_sub_exact]
  exact ⟨_, rfl, rfl, rfl⟩

theorem advanceKdj_of_state (row : FactorRow Exact) (state : SeedState Exact) (hk : row.kdjK = state.k)
    (hd : row.kdjD = state.d) (price : Exact) {high low : Exact} (hwide : Arithmetic.lt low high = true) :
    ∃ kdj, advanceKdj (kdjSeed row row.basis) (some price) (some high) (some low) = some kdj
      ∧ kdj.k = state.k + ((price - low) / (high - low) * ((100 : ℕ) : Exact) - state.k) / (kdjSmoothingPeriods : Exact)
      ∧ kdj.d = state.d + (kdj.k - state.d) / (kdjSmoothingPeriods : Exact) := by
  unfold kdjSeed factor advanceKdj
  rw [if_pos rfl, if_pos rfl, hk, hd]
  simp only [number_exact, lt_zero_sub_exact, hwide]
  exact ⟨_, rfl, rfl, rfl⟩

/-- The row advanced one step has the values of the seed of the bars with the running session as one more. -/
def Streams (bars : List (Bar Exact)) (live : Bar Exact) (row : FactorRow Exact) (basis : Basis)
    (price high low : Exact) : Prop :=
  ∃ next macd bounds kdj, computedSeed (bars ++ [live]) basis = some next
    ∧ advanceMacd (macdSeed row basis) (some price) = some macd
    ∧ kdjWindowBounds bars (some high) (some low) = some bounds
    ∧ advanceKdj (kdjSeed row basis) (some price) (some bounds.1) (some bounds.2) = some kdj
    ∧ macd.dif = next.macdDif ∧ macd.dea = next.macdDea ∧ kdj.k = next.kdjK ∧ kdj.d = next.kdjD

/-- **The seed of the completed bars, advanced by the running session, is the seed of the bars with the session as
    one more**, where the range of the nine sessions is not flat. -/
theorem streaming_eq_batch (bars : List (Bar Exact)) (live : Bar Exact) (basis : Basis) (row : FactorRow Exact)
    (price high low : Exact) (hseed : computedSeed bars basis = some row) (hclose : live.close = some price)
    (hhigh : live.high = some high) (hlow : live.low = some low)
    (hrange : ∀ bounds, kdjWindowBounds bars (some high) (some low) = some bounds →
      Arithmetic.lt bounds.2 bounds.1 = true) : Streams bars live row basis price high low := by
  unfold computedSeed at hseed
  split at hseed
  next => exact absurd hseed (by simp)
  next hlong =>
    simp only [not_or, not_not, not_lt] at hlong
    obtain ⟨hbasis, hlong⟩ := hlong
    split at hseed
    next => exact absurd hseed (by simp)
    next => exact absurd hseed (by simp)
    next first rest hprices =>
      have hnext := pricesOf_concat hprices (by rw [hclose, number_exact]) (by rw [hhigh, number_exact])
        (by rw [hlow, number_exact])
      obtain ⟨earliest, others, hwindow, hbounds⟩ := kdjWindowBounds_of_prices hprices
        (by unfold minSeedSessions at hlong; unfold kdjWindowSessions; omega) (number_exact high) (number_exact low) price
      have hwide := hrange _ hbounds
      -- the loop's last step sees the same window and comes from the same averages
      have hloop := seedLoop_concat (first :: rest) ⟨price, high, low⟩
        (⟨first.close, first.close, ((0 : ℕ) : Exact), ((50 : ℕ) : Exact), ((50 : ℕ) : Exact)⟩ : SeedState Exact)
      rw [seedBar, smoothBar, hwindow] at hloop
      dsimp only at hloop hseed
      rw [if_pos hwide] at hloop
      generalize (first :: rest).zipIdx.foldl (seedBar (first :: rest)) _ = state at hloop hseed
      have hrow := Option.some.inj hseed
      have hfast : row.expma12 = state.emaFast := by rw [← hrow]; rfl
      have hdif : row.macdDif = state.emaFast - state.emaSlow := by rw [← hrow]; rfl
      have hdea : row.macdDea = state.dea := by rw [← hrow]; rfl
      have hk : row.kdjK = state.k := by rw [← hrow]; rfl
      have hd : row.kdjD = state.d := by rw [← hrow]; rfl
      have hbasis' : row.basis = basis := by rw [← hrow]
      obtain ⟨macd, hmacd, hdif, hdea⟩ := advanceMacd_of_state row state hfast hdif hdea price (Nat.succ_ne_zero rest.length)
      obtain ⟨kdj, hkdj, hk, hd⟩ := advanceKdj_of_state row state hk hd price hwide
      rw [← hbasis']
      unfold Streams computedSeed
      rw [if_neg (by simp [hbasis', hbasis]; omega), hnext]
      rw [List.cons_append] at hloop ⊢
      dsimp only
      rw [hloop]
      exact ⟨_, macd, _, kdj, rfl, hmacd, hbounds, hkdj, hdif, hdea, hk, by rw [hd, hk]; rfl⟩

instance : DecidableEq Exact := inferInstanceAs (DecidableEq ℚ)

instance (n : ℕ) : OfNat Exact n where
  ofNat := (n : ℚ)

/-- A session at one price. -/
def quietBar : Bar Exact := ⟨0, some 10, some 10, some 10⟩

/-- A session that leaves the price of the last hundred and twenty. -/
def livelyBar : Bar Exact := ⟨0, some 11, some 12, some 9⟩

theorem streaming_eq_batch_lively : ∃ row, computedSeed (List.replicate 120 quietBar) .bfq = some row
    ∧ Streams (List.replicate 120 quietBar) livelyBar row .bfq 11 12 9 := by
  have hbounds : kdjWindowBounds (List.replicate 120 quietBar) (some 12) (some 9) = some (12, 9) := by
    decide +kernel
  obtain ⟨row, hseed⟩ := Option.isSome_iff_exists.mp
    (show (computedSeed (List.replicate 120 quietBar) .bfq).isSome = true by decide +kernel)
  refine ⟨row, hseed, streaming_eq_batch _ livelyBar .bfq row _ _ _ hseed rfl rfl rfl (fun bounds h => ?_)⟩
  rw [hbounds] at h
  obtain rfl := Option.some.inj h
  decide +kernel

end TradingHarness.Indicators
