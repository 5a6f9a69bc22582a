import Mathlib.Data.Int.Notation
import Mathlib.Data.Int.Order.Basic

set_option autoImplicit false

/-! # Spans of dates

A span has a first date and, once it is closed, a last one. A book has the spans of every key; it is kept by opening
spans today and closing them yesterday. -/

namespace Spans

structure Span where
  first : ℤ
  last : Option ℤ

/-- The date lies in the span. A span that ends before it begins has no date. -/
def Span.Covers (span : Span) (date : ℤ) : Prop := span.first ≤ date ∧ ∀ last, span.last = some last → date ≤ last

/-- No date lies in both. -/
def Apart (span other : Span) : Prop := ∀ date, span.Covers date → ¬ other.Covers date

abbrev Book (κ : Type) := κ → Span → Prop

section Book

variable {κ : Type}

def Member (book : Book κ) (key : κ) (date : ℤ) : Prop := ∃ span, book key span ∧ span.Covers date

def Open (book : Book κ) (key : κ) : Prop := ∃ first, book key ⟨first, none⟩

/-- The chosen keys get an open span from today on. A span that began today is opened again. -/
def opened (chosen : κ → Prop) (today : ℤ) (book : Book κ) : Book κ := fun key span =>
  (book key span ∧ ¬ (chosen key ∧ span.first = today)) ∨ (chosen key ∧ span = ⟨today, none⟩)

/-- The open spans of the keys that are gone end yesterday, those that began today apart. -/
def closed (gone : κ → Prop) (today : ℤ) (book : Book κ) : Book κ := fun key span =>
  (book key span ∧ ¬ (span.last = none ∧ span.first < today ∧ gone key)) ∨
    (span.last = some (today - 1) ∧ span.first < today ∧ gone key ∧ book key ⟨span.first, none⟩)

/-- The open spans of the keys that are gone are dropped where they began today. -/
def discarded (gone : κ → Prop) (today : ℤ) (book : Book κ) : Book κ := fun key span =>
  book key span ∧ ¬ (gone key ∧ span = ⟨today, none⟩)

/-- Nothing begins after today, and what has ended ended before it. -/
structure Past (today : ℤ) (book : Book κ) : Prop where
  begun : ∀ key span, book key span → span.first ≤ today
  ended : ∀ key span last, book key span → span.last = some last → last < today

/-- The spans of a key have no date in common. -/
def Disjoint (book : Book κ) : Prop := ∀ key span other, book key span → book key other → span ≠ other → Apart span other

variable {book : Book κ} {today date : ℤ} {key : κ} {chosen gone : κ → Prop}

theorem apart_of_ended {span other : Span} {last : ℤ} (hlast : span.last = some last) (h : last < other.first) :
    Apart span other ∧ Apart other span := by
  constructor
  · intro date hspan hother
    exact absurd (hspan.2 last hlast) (not_le.mpr (lt_of_lt_of_le h hother.1))
  · intro date hother hspan
    exact absurd (hspan.2 last hlast) (not_le.mpr (lt_of_lt_of_le h hother.1))

theorem Disjoint.open_unique (h : Disjoint book) {first other : ℤ} (hfirst : book key ⟨first, none⟩)
    (hother : book key ⟨other, none⟩) : first = other := by
  by_contra hne
  exact h key _ _ hfirst hother (fun hsame => hne (Span.mk.inj hsame).1) (max first other)
    ⟨le_max_left _ _, nofun⟩ ⟨le_max_right _ _, nofun⟩

/-! ## Dates from today on -/

theorem Past.mono (h : Past today book) {later : ℤ} (hle : today ≤ later) : Past later book :=
  ⟨fun key span hspan => le_trans (h.begun key span hspan) hle,
    fun key span last hspan hlast => lt_of_lt_of_le (h.ended key span last hspan hlast) hle⟩

theorem Past.member_iff (h : Past today book) (hdate : today ≤ date) : Member book key date ↔ Open book key := by
  constructor
  · rintro ⟨⟨first, last⟩, hspan, hcovers⟩
    rcases last with _ | last
    · exact ⟨first, hspan⟩
    · have hended := h.ended key _ last hspan rfl
      exact absurd (hcovers.2 last rfl) (not_le.mpr (lt_of_lt_of_le hended hdate))
  · rintro ⟨first, hspan⟩
    exact ⟨_, hspan, le_trans (h.begun key _ hspan) hdate, nofun⟩

/-! ## Opening -/

theorem member_opened_of_lt (hdate : date < today) : Member (opened chosen today book) key date ↔ Member book key date := by
  constructor
  · rintro ⟨span, hspan | ⟨-, rfl⟩, hcovers⟩
    · exact ⟨span, hspan.1, hcovers⟩
    · exact absurd hcovers.1 (not_le.mpr hdate)
  · rintro ⟨span, hspan, hcovers⟩
    refine ⟨span, Or.inl ⟨hspan, fun htoday => ?_⟩, hcovers⟩
    have hfirst := hcovers.1
    rw [htoday.2] at hfirst
    exact absurd hfirst (not_le.mpr hdate)

theorem Past.opened (h : Past today book) : Past today (opened chosen today book) := by
  refine ⟨?_, ?_⟩
  · rintro key span (hspan | ⟨-, rfl⟩)
    · exact h.begun key span hspan.1
    · exact le_refl _
  · rintro key span last (hspan | ⟨-, rfl⟩) hlast
    · exact h.ended key span last hspan.1 hlast
    · exact absurd hlast (by simp)

theorem open_opened : Open (opened chosen today book) key ↔ chosen key ∨ Open book key := by
  constructor
  · rintro ⟨first, hspan | ⟨hchosen, -⟩⟩
    · exact Or.inr ⟨first, hspan.1⟩
    · exact Or.inl hchosen
  · rintro (hchosen | ⟨first, hspan⟩)
    · exact ⟨today, Or.inr ⟨hchosen, rfl⟩⟩
    · by_cases htoday : chosen key ∧ first = today
      · exact ⟨today, Or.inr ⟨htoday.1, rfl⟩⟩
      · exact ⟨first, Or.inl ⟨hspan, htoday⟩⟩

theorem today_opened : opened chosen today book key ⟨today, none⟩ ↔ chosen key ∨ book key ⟨today, none⟩ := by
  unfold opened
  by_cases hchosen : chosen key <;> simp [hchosen]

theorem Disjoint.opened (h : Disjoint book) (hended : ∀ key span, chosen key → book key span → span.first ≠ today →
    ∃ last, span.last = some last ∧ last < today) : Disjoint (opened chosen today book) := by
  have hapart : ∀ key span, book key span → chosen key → ¬ (chosen key ∧ span.first = today) →
      Apart span ⟨today, none⟩ ∧ Apart ⟨today, none⟩ span := by
    intro key span hspan hchosen hkeep
    obtain ⟨last, hlast, hlt⟩ := hended key span hchosen hspan (fun hfirst => hkeep ⟨hchosen, hfirst⟩)
    exact apart_of_ended hlast hlt
  rintro key span other (hspan | ⟨hchosen, rfl⟩) (hother | ⟨hchosen', rfl⟩) hne
  · exact h key span other hspan.1 hother.1 hne
  · exact (hapart key span hspan.1 hchosen' hspan.2).1
  · exact (hapart key other hother.1 hchosen hother.2).2
  · exact absurd rfl hne

theorem Past.ended_of_closed (h : Past today book) {span : Span} (hspan : book key span) (hclosed : ¬ Open book key) :
    ∃ last, span.last = some last ∧ last < today := by
  obtain ⟨first, last⟩ := span
  rcases last with _ | last
  · exact absurd ⟨first, hspan⟩ hclosed
  · exact ⟨last, rfl, h.ended key _ last hspan rfl⟩

theorem opened_opened {chosen' : κ → Prop} :
    opened chosen' today (opened chosen today book) = opened (fun key => chosen key ∨ chosen' key) today book := by
  funext key span
  unfold opened
  apply propext
  constructor
  · rintro (⟨hspan | ⟨hchosen, rfl⟩, hkeep⟩ | ⟨hchosen, rfl⟩)
    · exact Or.inl ⟨hspan.1, fun htoday => htoday.1.elim (fun hchosen => hspan.2 ⟨hchosen, htoday.2⟩)
        (fun hchosen => hkeep ⟨hchosen, htoday.2⟩)⟩
    · exact Or.inr ⟨Or.inl hchosen, rfl⟩
    · exact Or.inr ⟨Or.inr hchosen, rfl⟩
  · rintro (⟨hspan, hkeep⟩ | ⟨hchosen, rfl⟩)
    · exact Or.inl ⟨Or.inl ⟨hspan, fun htoday => hkeep ⟨Or.inl htoday.1, htoday.2⟩⟩,
        fun htoday => hkeep ⟨Or.inr htoday.1, htoday.2⟩⟩
    · by_cases hlater : chosen' key
      · exact Or.inr ⟨hlater, rfl⟩
      · exact Or.inl ⟨Or.inr ⟨hchosen.resolve_right hlater, rfl⟩, fun htoday => hlater htoday.1⟩

/-! ## Closing -/

theorem member_closed_of_lt (hdate : date < today) : Member (closed gone today book) key date ↔ Member book key date := by
  constructor
  · rintro ⟨span, hspan | ⟨hlast, -, -, hspan⟩, hcovers⟩
    · exact ⟨span, hspan.1, hcovers⟩
    · exact ⟨_, hspan, hcovers.1, nofun⟩
  · rintro ⟨⟨first, last⟩, hspan, hcovers⟩
    by_cases hgone : last = none ∧ first < today ∧ gone key
    · obtain ⟨rfl, hfirst, hgone⟩ := hgone
      refine ⟨⟨first, some (today - 1)⟩, Or.inr ⟨rfl, hfirst, hgone, hspan⟩, hcovers.1, fun last hlast => ?_⟩
      obtain rfl := Option.some.inj hlast
      exact Int.le_sub_one_of_lt hdate
    · exact ⟨_, Or.inl ⟨hspan, hgone⟩, hcovers⟩

theorem Past.closed (h : Past today book) : Past today (closed gone today book) := by
  refine ⟨?_, ?_⟩
  · rintro key span (hspan | ⟨-, hfirst, -, -⟩)
    · exact h.begun key span hspan.1
    · exact le_of_lt hfirst
  · rintro key span last (hspan | ⟨hlast', -, -, -⟩) hlast
    · exact h.ended key span last hspan.1 hlast
    · rw [hlast'] at hlast
      obtain rfl := Option.some.inj hlast
      exact Int.sub_one_lt_of_le (le_refl _)

theorem today_closed : closed gone today book key ⟨today, none⟩ ↔ book key ⟨today, none⟩ := by
  unfold closed
  simp

theorem open_closed (h : Past today book) :
    Open (closed gone today book) key ↔ (¬ gone key ∧ Open book key) ∨ book key ⟨today, none⟩ := by
  constructor
  · rintro ⟨first, hspan | ⟨hlast, -⟩⟩
    · by_cases hgone : gone key
      · have hfirst : ¬ first < today := fun hlt => hspan.2 ⟨rfl, hlt, hgone⟩
        have hsame : first = today := le_antisymm (h.begun key _ hspan.1) (not_lt.mp hfirst)
        exact Or.inr (hsame ▸ hspan.1)
      · exact Or.inl ⟨hgone, first, hspan.1⟩
    · exact absurd hlast (by simp)
  · rintro (⟨hgone, first, hspan⟩ | hspan)
    · exact ⟨first, Or.inl ⟨hspan, fun hclosing => hgone hclosing.2.2⟩⟩
    · exact ⟨today, today_closed.mpr hspan⟩

theorem apart_of_shorter {first : ℤ} {last : Option ℤ} {other : Span} (h : Apart ⟨first, none⟩ other) :
    Apart ⟨first, last⟩ other := fun date hcovers => h date ⟨hcovers.1, nofun⟩

theorem Apart.symm {span other : Span} (h : Apart span other) : Apart other span :=
  fun date hother hspan => h date hspan hother

theorem Disjoint.closed (h : Disjoint book) : Disjoint (closed gone today book) := by
  -- a span that was kept is not the open one of a span that was closed
  have hkept : ∀ key span first, book key span → ¬ (span.last = none ∧ span.first < today ∧ gone key) →
      first < today → gone key → book key ⟨first, none⟩ → Apart ⟨first, some (today - 1)⟩ span := by
    intro key span first hspan hstays hfirst hgone hopen
    refine apart_of_shorter (h key _ _ hopen hspan ?_)
    rintro rfl
    exact hstays ⟨rfl, hfirst, hgone⟩
  rintro key ⟨first, last⟩ ⟨first', last'⟩ (hspan | ⟨rfl, hfirst, hgone, hspan⟩) (hother | ⟨rfl, hfirst', hgone', hother⟩) hne
  · exact h key _ _ hspan.1 hother.1 hne
  · exact (hkept key _ first' hspan.1 hspan.2 hfirst' hgone' hother).symm
  · exact hkept key _ first hother.1 hother.2 hfirst hgone hspan
  · exact absurd (congrArg (fun first => Span.mk first (some (today - 1))) (h.open_unique hspan hother)) hne

/-! ## Refreshing -/

/-- The keys that are there get a span where they have none, and some may get a new one where they have; the spans of
    the others are closed. -/
structure Refreshed (there : κ → Prop) (today : ℤ) (before after : Book κ) : Prop where
  chosen : ∃ chosen : κ → Prop, (∀ key, chosen key → there key) ∧ (∀ key, there key → chosen key ∨ Open before key) ∧
    after = closed (fun key => ¬ there key) today (opened chosen today before)

variable {there : κ → Prop} {before after : Book κ}

section

variable (h : Refreshed there today before after)

include h

theorem Refreshed.past (hpast : Past today before) : Past today after := by
  obtain ⟨chosen, -, -, rfl⟩ := h.chosen
  exact hpast.opened.closed

theorem Refreshed.member_of_lt (hdate : date < today) :
    Member after key date ↔ Member before key date := by
  obtain ⟨chosen, -, -, rfl⟩ := h.chosen
  rw [member_closed_of_lt hdate, member_opened_of_lt hdate]

theorem Refreshed.open_iff (hpast : Past today before) :
    Open after key ↔ there key ∨ before key ⟨today, none⟩ := by
  obtain ⟨chosen, hthere, hchosen, rfl⟩ := h.chosen
  rw [open_closed hpast.opened, open_opened, today_opened, not_not]
  constructor
  · rintro (⟨hkey, -⟩ | hkey | htoday)
    · exact Or.inl hkey
    · exact Or.inl (hthere key hkey)
    · exact Or.inr htoday
  · rintro (hkey | htoday)
    · exact Or.inl ⟨hkey, hchosen key hkey⟩
    · exact Or.inr (Or.inr htoday)

theorem Refreshed.began_today (hspan : after key ⟨today, none⟩) :
    there key ∨ before key ⟨today, none⟩ := by
  obtain ⟨chosen, hthere, -, rfl⟩ := h.chosen
  exact (today_opened.mp (today_closed.mp hspan)).imp_left (hthere key)

end

/-! ## Discarding -/

theorem member_discarded_of_lt (hdate : date < today) :
    Member (discarded gone today book) key date ↔ Member book key date := by
  constructor
  · rintro ⟨span, hspan, hcovers⟩
    exact ⟨span, hspan.1, hcovers⟩
  · rintro ⟨span, hspan, hcovers⟩
    refine ⟨span, ⟨hspan, ?_⟩, hcovers⟩
    rintro ⟨-, rfl⟩
    exact absurd hcovers.1 (not_le.mpr hdate)

theorem Past.discarded (h : Past today book) : Past today (discarded gone today book) :=
  ⟨fun key span hspan => h.begun key span hspan.1, fun key span last hspan => h.ended key span last hspan.1⟩

theorem Disjoint.discarded (h : Disjoint book) : Disjoint (discarded gone today book) :=
  fun key span other hspan hother => h key span other hspan.1 hother.1

theorem open_discarded_closed (h : Past today book) :
    Open (closed gone today (discarded gone today book)) key ↔ ¬ gone key ∧ Open book key := by
  rw [open_closed h.discarded]
  constructor
  · rintro (⟨hgone, first, hspan⟩ | hspan)
    · exact ⟨hgone, first, hspan.1⟩
    · have hstays : ¬ gone key := fun hgone => hspan.2 ⟨hgone, rfl⟩
      exact ⟨hstays, today, hspan.1⟩
  · rintro ⟨hgone, first, hspan⟩
    exact Or.inl ⟨hgone, first, hspan, fun htoday => hgone htoday.1⟩

/-! ## Writing spans -/

/-- Spans are written, in place of those of the same key and first date. -/
def put (written book : Book κ) : Book κ := fun key span =>
  written key span ∨ (book key span ∧ ∀ other, written key other → other.first ≠ span.first)

theorem Disjoint.put {written : Book κ} (h : Disjoint book) (hwritten : Disjoint written)
    (hapart : ∀ key span other, written key span → book key other → span.first ≠ other.first → Apart span other) :
    Disjoint (put written book) := by
  rintro key span other (hspan | ⟨hspan, hkeep⟩) (hother | ⟨hother, hkeep'⟩) hne
  · exact hwritten key span other hspan hother hne
  · exact hapart key span other hspan hother (hkeep' span hspan)
  · exact (hapart key other span hother hspan (hkeep other hother)).symm
  · exact h key span other hspan hother hne

theorem put_of_empty {written : Book κ} (h : ∀ key span, ¬ written key span) : put written book = book := by
  funext key span
  apply propext
  exact ⟨fun hspan => hspan.elim (fun hwritten => absurd hwritten (h key span)) And.left,
    fun hspan => Or.inr ⟨hspan, fun other hother => absurd hother (h key other)⟩⟩

theorem put_open : put (fun key span => chosen key ∧ span = ⟨today, none⟩) book = opened chosen today book := by
  funext key span
  apply propext
  constructor
  · rintro (hchosen | ⟨hspan, hkeep⟩)
    · exact Or.inr hchosen
    · exact Or.inl ⟨hspan, fun htoday => hkeep ⟨today, none⟩ ⟨htoday.1, rfl⟩ htoday.2.symm⟩
  · rintro (⟨hspan, hkeep⟩ | hchosen)
    · refine Or.inr ⟨hspan, ?_⟩
      rintro other ⟨hchosen, rfl⟩ hfirst
      exact hkeep ⟨hchosen, hfirst.symm⟩
    · exact Or.inl hchosen

end Book

end Spans
