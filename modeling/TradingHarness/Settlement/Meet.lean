import TradingHarness.Settlement.Walk

set_option autoImplicit false

/-! # Sales that end alike

Two rules that ask for a sale on different sessions can still be given the same fill, when both
sales are blocked and roll to one price. This module says exactly when: first what a roll can end in
(`rollPast_cases`), then what a sale asked on a session of a window can end in, and last the
condition under which two sales of one window end alike (`saleOn_eq_iff`). Sales are long here. -/

namespace TradingHarness

/-- Whether a sale on session `m` is unavailable; after the last session it is. -/
def blockedAt (symbol : String) (bars : List PricedBar) (m : ℕ) (field : SaleField) : Bool :=
  match bars[m]? with
  | some bar => saleBlocked symbol bar.toSettlementBar field
  | none => true

def closeMissing (bars : List PricedBar) (m : ℕ) : Prop :=
  ∃ bar, bars[m]? = some bar ∧ bar.close = none

variable (symbol : String) (n maxRoll index : ℕ) (field : SaleField) (bars : List PricedBar)

theorem blockedAt_of_length_le (m : ℕ)
    (field : SaleField) (h : bars.length ≤ m) : blockedAt symbol bars m field = true := by
  unfold blockedAt
  rw [List.getElem?_eq_none h]

theorem blockedAt_drop (n m : ℕ) (field : SaleField) :
    blockedAt symbol (bars.drop n) m field = blockedAt symbol bars (n + m) field := by
  unfold blockedAt
  rw [List.getElem?_drop]

/-! ## What a roll ends in -/

/-- The three ends of a roll over a list of bars: the first free close, the end of the list, or the
    value of the last close it may look at. -/
inductive RollEnd (symbol : String) (left index : ℕ) (bars : List PricedBar) : Walked → Prop
  | sold (m : ℕ) (bar : PricedBar) (hm : m ≤ left) (hbar : bars[m]? = some bar)
      (hfree : blockedAt symbol bars m .atClose = false)
      (hbefore : ∀ k < m, blockedAt symbol bars k .atClose = true) :
      RollEnd symbol left index bars
        (.settled (index + m) .atClose (bar.close.getD 0) .exitRolledPastBlockedSession)
  | ranOut (hlength : bars.length ≤ left)
      (hblocked : ∀ k, blockedAt symbol bars k .atClose = true) :
      RollEnd symbol left index bars (.pending .notResolved)
  | valued (bar : PricedBar) (hbar : bars[left]? = some bar)
      (hblocked : ∀ k ≤ left, blockedAt symbol bars k .atClose = true) :
      RollEnd symbol left index bars (valueAtClose (index + left) bar)

theorem RollEnd.cons {symbol : String} {left index : ℕ} {bar : PricedBar} {rest : List PricedBar}
    {w : Walked} (hblocked : saleBlocked symbol bar.toSettlementBar .atClose = true)
    (h : RollEnd symbol left (index + 1) rest w) :
    RollEnd symbol (left + 1) index (bar :: rest) w := by
  cases h with
  | sold m exitBar hm hbar hfree hbefore =>
      have hshift : index + 1 + m = index + (m + 1) := by omega
      rw [hshift]
      refine RollEnd.sold (m + 1) exitBar (by omega) hbar hfree ?_
      intro k hk
      cases k with
      | zero => exact hblocked
      | succ k => exact hbefore k (by omega)
  | ranOut hlength hall =>
      refine RollEnd.ranOut (by rw [List.length_cons]; omega) ?_
      intro k
      cases k with
      | zero => exact hblocked
      | succ k => exact hall k
  | valued lastBar hbar hall =>
      have hshift : index + 1 + left = index + (left + 1) := by omega
      rw [hshift]
      refine RollEnd.valued lastBar hbar ?_
      intro k hk
      cases k with
      | zero => exact hblocked
      | succ k => exact hall k (by omega)

theorem rollPast_cases (left index : ℕ) (bars : List PricedBar) :
    RollEnd symbol left index bars (rollPast symbol .long left index bars) := by
  induction bars generalizing left index with
  | nil =>
      unfold rollPast
      exact RollEnd.ranOut (by simp) (fun k => blockedAt_of_length_le symbol [] k .atClose (by simp))
  | cons bar rest ih =>
      rw [rollPast_cons]
      cases hb : saleBlocked symbol bar.toSettlementBar .atClose with
      | false =>
          have hoffer : offerBlocked symbol .long bar .atClose = false := hb
          rw [if_pos hoffer]
          exact RollEnd.sold 0 bar (Nat.zero_le _) rfl hb (fun k hk => absurd hk (by omega))
      | true =>
          have hoffer : ¬ offerBlocked symbol .long bar .atClose = false := by
            intro hfree
            have hfree' : saleBlocked symbol bar.toSettlementBar .atClose = false := hfree
            rw [hb] at hfree'
            exact absurd hfree' (by decide)
          rw [if_neg hoffer]
          cases left with
          | zero =>
              refine RollEnd.valued bar rfl ?_
              intro k hk
              obtain rfl : k = 0 := by omega
              exact hb
          | succ left => exact (ih left (index + 1)).cons hb

/-! ## What a sale ends in -/

/-- The sale of a window asked on session `i` at `field`. -/
def saleOn (symbol : String) (maxRoll : ℕ) (bars : List PricedBar) (ask : ℕ × SaleField) :
    Walked :=
  sellAt symbol .long maxRoll ask.2 ask.1 (bars.drop ask.1)

/-- A sale is made on the session that asks for it, or it rolls from there. -/
inductive SaleEnd (symbol : String) (maxRoll : ℕ) (bars : List PricedBar) (i : ℕ)
    (field : SaleField) : Walked → Prop
  | atOnce (price : ℚ) (hfree : blockedAt symbol bars i field = false) :
      SaleEnd symbol maxRoll bars i field (.settled i field.toExitField price .rule)
  | atClose (price : ℚ) (hopen : field = .atOpen)
      (hblocked : blockedAt symbol bars i .atOpen = true)
      (hfree : blockedAt symbol bars i .atClose = false) :
      SaleEnd symbol maxRoll bars i field (.settled i .atClose price .openBlockedCloseFallback)
  | rolled (hfield : blockedAt symbol bars i field = true)
      (hclose : blockedAt symbol bars i .atClose = true) :
      SaleEnd symbol maxRoll bars i field (rollPast symbol .long maxRoll i (bars.drop i))

variable (i j : ℕ) (f g : SaleField)

theorem saleOn_cases (field : SaleField) :
    SaleEnd symbol maxRoll bars i field (saleOn symbol maxRoll bars (i, field)) := by
  unfold saleOn
  dsimp only
  by_cases hlength : bars.length ≤ i
  · have hnil : bars.drop i = [] := List.drop_eq_nil_of_le hlength
    have hend : SaleEnd symbol maxRoll bars i field
        (rollPast symbol .long maxRoll i (bars.drop i)) :=
      SaleEnd.rolled (blockedAt_of_length_le symbol bars i field hlength)
        (blockedAt_of_length_le symbol bars i .atClose hlength)
    rw [hnil] at hend ⊢
    unfold rollPast at hend
    exact hend
  · obtain ⟨bar, hbar⟩ : ∃ bar, bars[i]? = some bar := ⟨_, List.getElem?_eq_getElem (by omega)⟩
    have hdrop : bars.drop i = bar :: bars.drop (i + 1) := by
      rw [List.drop_eq_getElem_cons (by omega)]
      have hget := (List.getElem?_eq_some_iff.mp hbar).2
      rw [hget]
    have hverdict : ∀ f, blockedAt symbol bars i f = offerBlocked symbol .long bar f := by
      intro f
      unfold blockedAt
      rw [hbar]
      rfl
    rw [hdrop, sellAt_cons]
    cases hf : offerBlocked symbol .long bar field with
    | false =>
        rw [if_pos rfl]
        exact SaleEnd.atOnce _ (by rw [hverdict, hf])
    | true =>
        rw [if_neg (by decide)]
        by_cases hc : field = .atOpen ∧ offerBlocked symbol .long bar .atClose = false
        · rw [if_pos hc]
          refine SaleEnd.atClose _ hc.1 ?_ (by rw [hverdict, hc.2])
          rw [hverdict, ← hc.1, hf]
        · rw [if_neg hc]
          have hclose : offerBlocked symbol .long bar .atClose = true := by
            cases field with
            | atClose => exact hf
            | atOpen =>
                rw [← Bool.not_eq_false]
                intro hfree
                exact hc ⟨rfl, hfree⟩
          -- what is left of the sale is a roll that meets the blocked close first
          have hend : SaleEnd symbol maxRoll bars i field
              (rollPast symbol .long maxRoll i (bars.drop i)) :=
            SaleEnd.rolled (by rw [hverdict, hf]) (by rw [hverdict, hclose])
          rw [hdrop, rollPast_cons, if_neg (by rw [hclose]; decide)] at hend
          cases maxRoll <;> exact hend

theorem valueAtClose_ne_sold (bar : PricedBar) (field : ExitField) (price : ℚ)
    (reason : Reason) (h : reason ≠ .exitBlockedValuedAtClose) :
    valueAtClose index bar ≠ .settled i field price reason := by
  unfold valueAtClose
  split
  · simp
  · intro heq
    simp only [Walked.settled.injEq] at heq
    exact h heq.2.2.2.symm

theorem valueAtClose_ne_notResolved (bar : PricedBar) :
    valueAtClose index bar ≠ .pending .notResolved := by
  unfold valueAtClose
  split <;> simp

theorem valueAtClose_eq_iff (index' : ℕ) (bar bar' : PricedBar) (h : index ≠ index') :
    valueAtClose index bar = valueAtClose index' bar' ↔ bar.close = none ∧ bar'.close = none := by
  unfold valueAtClose
  cases bar.close <;> cases bar'.close <;> simp [h]

/-! ## When two sales meet -/

/-- The later sale of two ends like the earlier one: both are blocked where they are asked, no
    close between them is free, and the path ends within the earlier roll, or a later close within
    it is free, or neither roll ever comes to a price. -/
structure SalesMeet (symbol : String) (maxRoll : ℕ) (bars : List PricedBar)
    (early late : ℕ × SaleField) : Prop where
  early_blocked : blockedAt symbol bars early.1 early.2 = true
  late_blocked : blockedAt symbol bars late.1 late.2 = true
  late_close_blocked : blockedAt symbol bars late.1 .atClose = true
  between : ∀ m, early.1 ≤ m → m ≤ late.1 → m ≤ early.1 + maxRoll →
    blockedAt symbol bars m .atClose = true
  rolls : bars.length ≤ early.1 + maxRoll ∨
    (∃ m, late.1 < m ∧ m ≤ early.1 + maxRoll ∧ blockedAt symbol bars m .atClose = false) ∨
    ((∀ m, late.1 < m → m ≤ late.1 + maxRoll → blockedAt symbol bars m .atClose = true) ∧
      closeMissing bars (early.1 + maxRoll) ∧ closeMissing bars (late.1 + maxRoll))

/-- Two blocked sales end alike exactly when their rolls do. -/
theorem rollPast_eq_iff (hij : i < j) (hj : blockedAt symbol bars j .atClose = true) :
    rollPast symbol .long maxRoll i (bars.drop i) = rollPast symbol .long maxRoll j (bars.drop j) ↔
      (∀ m, i ≤ m → m ≤ j → m ≤ i + maxRoll → blockedAt symbol bars m .atClose = true) ∧
      (bars.length ≤ i + maxRoll ∨
        (∃ m, j < m ∧ m ≤ i + maxRoll ∧ blockedAt symbol bars m .atClose = false) ∨
        ((∀ m, j < m → m ≤ j + maxRoll → blockedAt symbol bars m .atClose = true) ∧
          closeMissing bars (i + maxRoll) ∧ closeMissing bars (j + maxRoll))) := by
  -- the closes each roll looks at, by session of the window
  have hview : ∀ n k, blockedAt symbol (bars.drop n) k .atClose
      = blockedAt symbol bars (n + k) .atClose := fun n k => blockedAt_drop symbol bars n k .atClose
  have hfrom : ∀ n m, n ≤ m → blockedAt symbol bars m .atClose
      = blockedAt symbol (bars.drop n) (m - n) .atClose := by
    intro n m hnm
    rw [hview, Nat.add_sub_cancel' hnm]
  have hlen : ∀ n k, (bars.drop n).length ≤ k → bars.length ≤ n + k := by
    intro n k h
    rw [List.length_drop] at h
    omega
  generalize hwi : rollPast symbol .long maxRoll i (bars.drop i) = wi
  generalize hwj : rollPast symbol .long maxRoll j (bars.drop j) = wj
  have hi := rollPast_cases symbol maxRoll i (bars.drop i)
  have hj' := rollPast_cases symbol maxRoll j (bars.drop j)
  rw [hwi] at hi
  rw [hwj] at hj'
  cases hi with
  | sold a bar ha hbar hfree hbefore =>
      rw [hview] at hfree
      by_cases haj : i + a ≤ j
      · -- the earlier sale is made before the later one is asked
        constructor
        · intro heq
          exfalso
          have hne : i + a ≠ j := by
            rintro rfl
            rw [hj] at hfree
            exact absurd hfree (by decide)
          cases hj' with
          | sold b bar' hb hbar' hfree' hbefore' =>
              simp only [Walked.settled.injEq] at heq
              omega
          | ranOut hlength hblocked => simp at heq
          | valued bar' hbar' hblocked =>
              exact valueAtClose_ne_sold _ _ _ _ _ _ (by decide) heq.symm
        · rintro ⟨hbetween, -⟩
          rw [hbetween (i + a) (by omega) haj (by omega)] at hfree
          exact absurd hfree (by decide)
      · -- both rolls see the same first free close
        have hwithin : blockedAt symbol (bars.drop j) (i + a - j) .atClose = false := by
          rw [← hfrom j (i + a) (by omega)]
          exact hfree
        have hblockedBefore : ∀ m, i ≤ m → m < i + a → blockedAt symbol bars m .atClose = true := by
          intro m hm hma
          rw [hfrom i m hm]
          exact hbefore (m - i) (by omega)
        constructor
        · intro _
          refine ⟨fun m hm hmj _ => hblockedBefore m hm (by omega), Or.inr (Or.inl ?_)⟩
          exact ⟨i + a, by omega, by omega, hfree⟩
        · intro _
          cases hj' with
          | sold b bar' hb hbar' hfree' hbefore' =>
              rw [hview] at hfree'
              have hsame : j + b = i + a := by
                rcases lt_trichotomy (j + b) (i + a) with hlt | heq | hgt
                · rw [hblockedBefore (j + b) (by omega) hlt] at hfree'
                  exact absurd hfree' (by decide)
                · exact heq
                · rw [hbefore' (i + a - j) (by omega)] at hwithin
                  exact absurd hwithin (by decide)
              rw [List.getElem?_drop] at hbar hbar'
              rw [hsame, hbar, Option.some.injEq] at hbar'
              rw [hsame, hbar']
          | ranOut hlength hblocked =>
              rw [hblocked] at hwithin
              exact absurd hwithin (by decide)
          | valued bar' hbar' hblocked =>
              rw [hblocked (i + a - j) (by omega)] at hwithin
              exact absurd hwithin (by decide)
  | ranOut hlength hblocked =>
      have hall : ∀ m, i ≤ m → blockedAt symbol bars m .atClose = true := by
        intro m hm
        rw [hfrom i m hm]
        exact hblocked _
      have hend := hlen i maxRoll hlength
      refine ⟨fun _ => ⟨fun m hm _ _ => hall m hm, Or.inl hend⟩, fun _ => ?_⟩
      cases hj' with
      | sold b bar' hb hbar' hfree' hbefore' =>
          rw [hview, hall (j + b) (by omega)] at hfree'
          exact absurd hfree' (by decide)
      | ranOut hlength' hblocked' => rfl
      | valued bar' hbar' hblocked' =>
          obtain ⟨hlt, -⟩ := List.getElem?_eq_some_iff.mp hbar'
          rw [List.length_drop] at hlt
          omega
  | valued bar hbar hblocked =>
      have hall : ∀ m, i ≤ m → m ≤ i + maxRoll → blockedAt symbol bars m .atClose = true := by
        intro m hm hmi
        rw [hfrom i m hm]
        exact hblocked _ (by omega)
      rw [List.getElem?_drop] at hbar
      obtain ⟨hlt, -⟩ := List.getElem?_eq_some_iff.mp hbar
      constructor
      · intro heq
        refine ⟨fun m hm _ hmi => hall m hm hmi, Or.inr (Or.inr ?_)⟩
        cases hj' with
        | sold b bar' hb hbar' hfree' hbefore' =>
            exact absurd heq (valueAtClose_ne_sold _ _ _ _ _ _ (by decide))
        | ranOut hlength' hblocked' => exact absurd heq (valueAtClose_ne_notResolved _ _)
        | valued bar' hbar' hblocked' =>
            rw [List.getElem?_drop] at hbar'
            obtain ⟨hnone, hnone'⟩ := (valueAtClose_eq_iff _ _ bar bar' (by omega)).mp heq
            refine ⟨?_, ⟨bar, hbar, hnone⟩, ⟨bar', hbar', hnone'⟩⟩
            intro m hm hmj
            rw [hfrom j m (by omega)]
            exact hblocked' _ (by omega)
      · rintro ⟨-, hlength | ⟨m, hm, hmi, hfree⟩ | ⟨hblocked', ⟨b, hb, hnone⟩, ⟨b', hb', hnone'⟩⟩⟩
        · omega
        · rw [hall m (by omega) hmi] at hfree
          exact absurd hfree (by decide)
        · obtain ⟨hlt', -⟩ := List.getElem?_eq_some_iff.mp hb'
          cases hj' with
          | sold c bar' hc hbar' hfree' hbefore' =>
              rw [hview] at hfree'
              rcases Nat.eq_zero_or_pos c with rfl | hpos
              · rw [Nat.add_zero, hj] at hfree'
                exact absurd hfree' (by decide)
              · rw [hblocked' (j + c) (by omega) (by omega)] at hfree'
                exact absurd hfree' (by decide)
          | ranOut hlength' hblocked'' =>
              have := hlen j maxRoll hlength'
              omega
          | valued bar' hbar' hblocked'' =>
              rw [List.getElem?_drop] at hbar'
              rw [hb, Option.some.injEq] at hbar
              rw [hb', Option.some.injEq] at hbar'
              rw [valueAtClose_eq_iff _ _ bar bar' (by omega)]
              exact ⟨hbar ▸ hnone, hbar' ▸ hnone'⟩

/-- Where a roll can end: not before its own session, and never with the words of a sale made at
    once. -/
theorem rollPast_ne_atOnce (bars : List PricedBar)
    (field : ExitField) (price : ℚ) (reason : Reason)
    (hreason : reason = .rule ∨ reason = .openBlockedCloseFallback) :
    rollPast symbol .long maxRoll index bars ≠ .settled i field price reason := by
  have hend := rollPast_cases symbol maxRoll index bars
  generalize rollPast symbol .long maxRoll index bars = w at hend
  intro heq
  cases hend with
  | sold m bar hm hbar hfree hbefore =>
      simp only [Walked.settled.injEq] at heq
      rcases hreason with h | h <;> rw [h] at heq <;> simp at heq
  | ranOut hlength hblocked => simp at heq
  | valued bar hbar hblocked =>
      refine valueAtClose_ne_sold _ _ _ _ _ _ ?_ heq
      rcases hreason with h | h <;> rw [h] <;> decide

/-- **When two sales meet**, the second asked on a later session. -/
theorem saleOn_eq_iff (hij : i < j) :
    saleOn symbol maxRoll bars (i, f) = saleOn symbol maxRoll bars (j, g) ↔
      SalesMeet symbol maxRoll bars (i, f) (j, g) := by
  have hi := saleOn_cases symbol maxRoll bars i f
  have hj := saleOn_cases symbol maxRoll bars j g
  generalize saleOn symbol maxRoll bars (i, f) = wi at hi
  generalize saleOn symbol maxRoll bars (j, g) = wj at hj
  have hfalse : ∀ b : Bool, b = true → b = false → False := by
    intro b h h'
    rw [h] at h'
    exact absurd h' (by decide)
  cases hi with
  | atOnce price hfree =>
      constructor
      · intro heq
        exfalso
        cases hj with
        | atOnce price' hfree' => simp only [Walked.settled.injEq] at heq; omega
        | atClose price' hopen hblocked hfree' => simp at heq
        | rolled hfield hclose =>
            exact rollPast_ne_atOnce _ _ _ _ _ _ _ _ (Or.inl rfl) heq.symm
      · intro hmeet
        exact absurd hfree (fun h => hfalse _ hmeet.early_blocked h)
  | atClose price hopen hblocked hfree =>
      constructor
      · intro heq
        exfalso
        cases hj with
        | atOnce price' hfree' => simp at heq
        | atClose price' hopen' hblocked' hfree' =>
            simp only [Walked.settled.injEq] at heq
            omega
        | rolled hfield hclose =>
            exact rollPast_ne_atOnce _ _ _ _ _ _ _ _ (Or.inr rfl) heq.symm
      · intro hmeet
        have hblocked' := hmeet.between i (le_refl _) hij.le (Nat.le_add_right _ _)
        exact absurd hfree (fun h => hfalse _ hblocked' h)
  | rolled hfield hclose =>
      cases hj with
      | atOnce price' hfree' =>
          constructor
          · intro heq
            exact absurd heq (rollPast_ne_atOnce _ _ _ _ _ _ _ _ (Or.inl rfl))
          · intro hmeet
            exact absurd hfree' (fun h => hfalse _ hmeet.late_blocked h)
      | atClose price' hopen' hblocked' hfree' =>
          constructor
          · intro heq
            exact absurd heq (rollPast_ne_atOnce _ _ _ _ _ _ _ _ (Or.inr rfl))
          · intro hmeet
            exact absurd hfree' (fun h => hfalse _ hmeet.late_close_blocked h)
      | rolled hfield' hclose' =>
          rw [rollPast_eq_iff symbol maxRoll bars i j hij hclose']
          constructor
          · rintro ⟨hbetween, hrolls⟩
            exact ⟨hfield, hfield', hclose', hbetween, hrolls⟩
          · intro hmeet
            exact ⟨hmeet.between, hmeet.rolls⟩

theorem saleOn_eq_iff_same
    :
    saleOn symbol maxRoll bars (i, f) = saleOn symbol maxRoll bars (i, g) ↔
      f = g ∨ (blockedAt symbol bars i f = true ∧ blockedAt symbol bars i g = true) := by
  by_cases hfg : f = g
  · simp [hfg]
  have hf := saleOn_cases symbol maxRoll bars i f
  have hg := saleOn_cases symbol maxRoll bars i g
  generalize saleOn symbol maxRoll bars (i, f) = wf at hf
  generalize saleOn symbol maxRoll bars (i, g) = wg at hg
  simp only [hfg, false_or]
  cases hf with
  | atOnce price hfree =>
      simp only [hfree, Bool.false_eq_true, false_and, iff_false]
      intro heq
      cases hg with
      | atOnce price' hfree' =>
          cases f <;> cases g <;> simp [SaleField.toExitField] at hfg heq
      | atClose price' hopen hblocked hfree' => simp at heq
      | rolled hfield hclose => exact rollPast_ne_atOnce _ _ _ _ _ _ _ _ (Or.inl rfl) heq.symm
  | atClose price hopen hblocked hfree =>
      obtain rfl : g = .atClose := by
        cases g with
        | atClose => rfl
        | atOpen => exact absurd hopen hfg
      simp only [hfree, Bool.false_eq_true, and_false, iff_false]
      intro heq
      cases hg with
      | atOnce price' hfree' => simp at heq
      | atClose price' hopen' hblocked' hfree' => simp at hopen'
      | rolled hfield hclose => exact rollPast_ne_atOnce _ _ _ _ _ _ _ _ (Or.inr rfl) heq.symm
  | rolled hfield hclose =>
      cases hg with
      | atOnce price' hfree' =>
          simp only [hfree', Bool.false_eq_true, and_false, iff_false]
          exact rollPast_ne_atOnce _ _ _ _ _ _ _ _ (Or.inl rfl)
      | atClose price' hopen' hblocked' hfree' =>
          rw [hclose] at hfree'
          exact absurd hfree' (by decide)
      | rolled hfield' hclose' => simp [hfield, hfield']

/-- Two sales end alike, in either order. -/
def SalesAgree (symbol : String) (maxRoll : ℕ) (bars : List PricedBar)
    (a b : ℕ × SaleField) : Prop :=
  (a.1 < b.1 ∧ SalesMeet symbol maxRoll bars a b) ∨
    (b.1 < a.1 ∧ SalesMeet symbol maxRoll bars b a) ∨
    (a.1 = b.1 ∧ (a.2 = b.2 ∨
      (blockedAt symbol bars a.1 a.2 = true ∧ blockedAt symbol bars b.1 b.2 = true)))

theorem saleOn_eq_iff_agree (a b : ℕ × SaleField) :
    saleOn symbol maxRoll bars a = saleOn symbol maxRoll bars b ↔
      SalesAgree symbol maxRoll bars a b := by
  obtain ⟨i, f⟩ := a
  obtain ⟨j, g⟩ := b
  unfold SalesAgree
  dsimp only
  rcases lt_trichotomy i j with hlt | rfl | hgt
  · rw [saleOn_eq_iff symbol maxRoll bars i j f g hlt]
    simp [hlt, hlt.ne, hlt.not_gt]
  · rw [saleOn_eq_iff_same]
    simp
  · rw [eq_comm, saleOn_eq_iff symbol maxRoll bars j i g f hgt]
    simp [hgt, hgt.ne', hgt.not_gt]

/-! ## What a sale is worth -/

theorem saleOn_priced (ask : ℕ × SaleField) (i : ℕ) (field : ExitField) (price : ℚ) (reason : Reason)
    (h : saleOn symbol maxRoll bars ask = .settled i field price reason) :
    ∃ bar sale, bars[i]? = some bar ∧ field = SaleField.toExitField sale ∧
      bar.priceAt sale = some price := by
  obtain ⟨hlo, -, bar, hget, hsold⟩ := sellAt_settled symbol maxRoll ask.1 ask.2 _ i field price
    reason h
  rw [List.getElem?_drop, Nat.add_sub_cancel' hlo] at hget
  rcases hsold with ⟨-, hfield, hclose⟩ | ⟨-, sale, hfield, hprice, -⟩
  · exact ⟨bar, .atClose, hget, hfield, hclose⟩
  · exact ⟨bar, sale, hget, hfield, hprice⟩

/-- Nothing is received for a sale: it meets no free price, and the close it is valued at in the
    end, if there is one, is zero. -/
structure Worthless (symbol : String) (maxRoll : ℕ) (bars : List PricedBar)
    (ask : ℕ × SaleField) : Prop where
  blocked : blockedAt symbol bars ask.1 ask.2 = true
  rolls_blocked : ∀ m, ask.1 ≤ m → m ≤ ask.1 + maxRoll → blockedAt symbol bars m .atClose = true
  valued_at_zero : ∀ bar price, bars[ask.1 + maxRoll]? = some bar → bar.close = some price →
    price = 0

theorem free_price_pos (m : ℕ) (field : SaleField)
    (bar : PricedBar) (price : ℚ) (hfree : blockedAt symbol bars m field = false)
    (hbar : bars[m]? = some bar) (hprice : bar.priceAt field = some price) : 0 < price := by
  unfold blockedAt at hfree
  rw [hbar] at hfree
  obtain ⟨p, hp, -, hpos, -⟩ := saleBlocked_eq_false symbol bar.toSettlementBar field hfree
  rw [hprice, Option.some.injEq] at hp
  rwa [hp]

theorem worthless_iff (ask : ℕ × SaleField) :
    Worthless symbol maxRoll bars ask ↔
      ∀ i field price reason,
        saleOn symbol maxRoll bars ask = .settled i field price reason → price = 0 := by
  obtain ⟨start, f⟩ := ask
  have hcases := saleOn_cases symbol maxRoll bars start f
  have hpriced := saleOn_priced symbol maxRoll bars (start, f)
  -- a sale at a free price is worth something
  have hfreePrice : ∀ (m : ℕ) (g : SaleField) (price : ℚ) (reason : Reason),
      saleOn symbol maxRoll bars (start, f) = .settled m g.toExitField price reason →
      blockedAt symbol bars m g = false → price ≠ 0 := by
    intro m g price reason hsale hfree
    obtain ⟨bar, sale, hbar, hfield, hprice⟩ := hpriced m g.toExitField price reason hsale
    have hsame : sale = g := by
      cases sale <;> cases g <;> simp [SaleField.toExitField] at hfield <;> rfl
    subst hsame
    exact (free_price_pos symbol bars m sale bar price hfree hbar hprice).ne'
  generalize hw : saleOn symbol maxRoll bars (start, f) = w at hcases hfreePrice
  cases hcases with
  | atOnce price hfree =>
      constructor
      · intro hworthless
        rw [hworthless.blocked] at hfree
        exact absurd hfree (by decide)
      · intro hzero
        exact absurd (hzero start _ price _ rfl) (hfreePrice start f price _ rfl hfree)
  | atClose price hopen hblocked hfree =>
      constructor
      · intro hworthless
        rw [hworthless.rolls_blocked start (le_refl _) (Nat.le_add_right _ _)] at hfree
        exact absurd hfree (by decide)
      · intro hzero
        exact absurd (hzero start _ price _ rfl) (hfreePrice start .atClose price _ rfl hfree)
  | rolled hfield hclose =>
      have hend := rollPast_cases symbol maxRoll start (bars.drop start)
      generalize rollPast symbol .long maxRoll start (bars.drop start) = roll at hend hfreePrice
      cases hend with
      | sold m bar hm hbar hfree hbefore =>
          rw [blockedAt_drop] at hfree
          constructor
          · intro hworthless
            rw [hworthless.rolls_blocked (start + m) (by omega) (by omega)] at hfree
            exact absurd hfree (by decide)
          · intro hzero
            exact absurd (hzero _ _ _ _ rfl) (hfreePrice (start + m) .atClose _ _ rfl hfree)
      | ranOut hlength hblocked =>
          refine ⟨fun _ i field price reason h => by simp at h, fun _ => ⟨hfield, ?_, ?_⟩⟩
          · intro m hm _
            have hdrop := blockedAt_drop symbol bars start (m - start) .atClose
            rw [Nat.add_sub_cancel' hm] at hdrop
            rw [← hdrop]
            exact hblocked _
          · intro bar price hbar _
            obtain ⟨hlt, -⟩ := List.getElem?_eq_some_iff.mp hbar
            rw [List.length_drop] at hlength
            dsimp only at hlt
            omega
      | valued bar hbar hblocked =>
          rw [List.getElem?_drop] at hbar
          constructor
          · intro hworthless i field price reason h
            unfold valueAtClose at h
            split at h
            · simp at h
            · next close hc =>
                simp only [Walked.settled.injEq] at h
                rw [← h.2.2.1]
                exact hworthless.valued_at_zero bar close hbar hc
          · intro hzero
            refine ⟨hfield, ?_, ?_⟩
            · intro m hm hmi
              have hdrop := blockedAt_drop symbol bars start (m - start) .atClose
              rw [Nat.add_sub_cancel' hm] at hdrop
              rw [← hdrop]
              exact hblocked _ (by dsimp only at hm hmi; omega)
            · intro bar' price hbar' hc
              dsimp only at hbar'
              rw [hbar, Option.some.injEq] at hbar'
              subst hbar'
              refine hzero (start + maxRoll) .atClose price .exitBlockedValuedAtClose ?_
              unfold valueAtClose
              rw [hc]

/-! ## Shifting the sessions -/

/-- The walk with its sessions counted from `n` sessions earlier. -/
def Walked.shift (n : ℕ) : Walked → Walked
  | .pending reason => .pending reason
  | .settled i field price reason => .settled (i + n) field price reason

theorem valueAtClose_shift (bar : PricedBar) :
    valueAtClose (index + n) bar = (valueAtClose index bar).shift n := by
  unfold valueAtClose
  cases bar.close <;> rfl

theorem rollPast_shift (left index : ℕ) (bars : List PricedBar) :
    rollPast symbol .long left (index + n) bars
      = (rollPast symbol .long left index bars).shift n := by
  induction bars generalizing left index with
  | nil => cases left <;> rfl
  | cons bar rest ih =>
      rw [rollPast_cons, rollPast_cons]
      by_cases hb : offerBlocked symbol .long bar .atClose = false
      · rw [if_pos hb, if_pos hb]
        rfl
      · rw [if_neg hb, if_neg hb]
        cases left with
        | zero => exact valueAtClose_shift n index bar
        | succ left =>
            have hstep := ih left (index + 1)
            have hindex : index + 1 + n = index + n + 1 := by omega
            rw [hindex] at hstep
            exact hstep

theorem sellAt_shift :
    sellAt symbol .long maxRoll field (index + n) bars
      = (sellAt symbol .long maxRoll field index bars).shift n := by
  cases bars with
  | nil => rfl
  | cons bar rest =>
      rw [sellAt_cons, sellAt_cons]
      by_cases hb : offerBlocked symbol .long bar field = false
      · rw [if_pos hb, if_pos hb]
        rfl
      · rw [if_neg hb, if_neg hb]
        by_cases hc : field = .atOpen ∧ offerBlocked symbol .long bar .atClose = false
        · rw [if_pos hc, if_pos hc]
          rfl
        · rw [if_neg hc, if_neg hc]
          cases maxRoll with
          | zero => exact valueAtClose_shift n index bar
          | succ left =>
              have hstep := rollPast_shift symbol n left (index + 1) rest
              have hindex : index + 1 + n = index + n + 1 := by omega
              rw [hindex] at hstep
              exact hstep

theorem carryOut_shift (decision : ExitDecision) :
    carryOut symbol .long maxRoll (index + n) bars decision
      = (carryOut symbol .long maxRoll index bars decision).shift n := by
  cases decision with
  | sell field => exact sellAt_shift symbol n maxRoll index field bars
  | target price => rfl
  | stop price => rfl

end TradingHarness
