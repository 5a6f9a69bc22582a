import TradingHarness.Tdx.BatchQuotes

set_option autoImplicit false

/-! # Which quotes of a batch are kept

An answer whose records follow the request is kept as a whole when they also follow the last slots of the
request, and loses records otherwise. Whatever the answer, the kept records are a subsequence of the request
without repeats, and the symbols reported missing are those whose security has no kept record. -/

namespace TradingHarness

/-! ## The loop and the slots -/

variable (requested : List (ℕ × String)) (rows : List QuoteRow)

/-- The pairs that the rows return. -/
def returnedPairs : List (Option (MacValue × MacValue)) := rows.map QuoteRow.returned

/-- The pairs of a request, as rows return them. -/
def wantedPairs : List (Option (MacValue × MacValue)) :=
  requested.map (fun wanted => some (wantedPair wanted))

/-- The records of the answer are a subsequence of the requested pairs, in the order of the request. -/
def FollowsRequest : Prop :=
  (returnedPairs rows).Sublist (wantedPairs requested)

/-- And in the order of the last slots of the request. -/
def FollowsLastSlots : Prop :=
  (returnedPairs rows).Sublist (wantedPairs requested.dedup)

instance (requested : List (ℕ × String)) (rows : List QuoteRow) : Decidable (FollowsRequest requested rows) :=
  inferInstanceAs (Decidable ((returnedPairs rows).Sublist _))

instance (requested : List (ℕ × String)) (rows : List QuoteRow) : Decidable (FollowsLastSlots requested rows) :=
  inferInstanceAs (Decidable ((returnedPairs rows).Sublist _))

theorem wantedPair_injective : Function.Injective wantedPair := by
  rintro ⟨market, code⟩ ⟨market', code'⟩ h
  simpa [wantedPair] using h

section

variable (position : MacValue × MacValue → Option ℕ)

theorem keptQuotes_eq (following : ℕ) (rows : List QuoteRow)
    (pair : QuoteRow → MacValue × MacValue) (h : ∀ row ∈ rows, row.returned = some (pair row)) :
    keptQuotes position following rows = .ok (Slots.keep position pair following rows) := by
  induction rows generalizing following with
  | nil => rfl
  | cons row rows ih =>
      have hrest := fun following => ih following (fun other hother => h other (List.mem_cons_of_mem row hother))
      rw [keptQuotes, h row List.mem_cons_self, Slots.keep]
      simp only
      rcases position (pair row) with _ | index
      · exact hrest following
      · simp only
        by_cases hpassed : index < following
        · rw [if_pos hpassed, if_pos hpassed]
          exact hrest following
        · rw [if_neg hpassed, if_neg hpassed, hrest]
          rfl

theorem returned_of_keptQuotes (following : ℕ)
    (rows kept : List QuoteRow) (h : keptQuotes position following rows = .ok kept) :
    ∀ row ∈ rows, row.returned.isSome := by
  induction rows generalizing following kept with
  | nil => simp
  | cons row rows ih =>
      rw [keptQuotes] at h
      split at h
      · cases h
      · next returned hreturned =>
          have hrest : ∃ following kept, keptQuotes position following rows = .ok kept := by
            split at h
            · exact ⟨_, _, h⟩
            · split at h
              · exact ⟨_, _, h⟩
              · obtain ⟨kept, hkept, -⟩ := Runs.bind_eq_ok h
                exact ⟨_, kept, hkept⟩
          obtain ⟨following', kept', hkept⟩ := hrest
          intro other hother
          rcases List.mem_cons.mp hother with rfl | hlater
          · rw [hreturned]; rfl
          · exact ih following' kept' hkept other hlater

end

/-- The pair of a row that has one. -/
def QuoteRow.pair (row : QuoteRow) : MacValue × MacValue := row.returned.getD (.number 0, .text "")

theorem returned_eq_pair {row : QuoteRow} (h : row.returned.isSome) : row.returned = some row.pair := by
  obtain ⟨pair, hpair⟩ := Option.isSome_iff_exists.mp h
  rw [QuoteRow.pair, hpair]
  rfl

theorem sublist_wantedPairs_iff (h : ∀ row ∈ rows, row.returned.isSome) :
    (rows.map QuoteRow.pair).Sublist (requested.map wantedPair)
      ↔ (returnedPairs rows).Sublist (wantedPairs requested) := by
  have hreturned : returnedPairs rows = (rows.map QuoteRow.pair).map some := by
    rw [List.map_map]
    exact List.map_congr_left (fun row hrow => returned_eq_pair (h row hrow))
  have hwanted : wantedPairs requested = (requested.map wantedPair).map some := by
    rw [List.map_map]
    rfl
  rw [hreturned, hwanted]
  constructor
  · exact fun hsub => hsub.map some
  · intro hsub
    obtain ⟨others, hothers, hmap⟩ := List.sublist_map_iff.mp hsub
    rwa [List.map_injective_iff.mpr (Option.some_injective _) hmap]

theorem dedup_map_wantedPair :
    (requested.map wantedPair).dedup = requested.dedup.map wantedPair :=
  List.dedup_map_of_injective wantedPair_injective requested

section Answers

variable (gb18030 : List UInt8 → String)

theorem parseBatchQuotes_ok {body : List UInt8} {requested : List (ℕ × String)} {kept : List QuoteRow}
    (h : parseBatchQuotes gb18030 body requested = .ok kept) :
    ∃ rows : List QuoteRow, decodeDynamicResponse gb18030 body = .ok rows ∧ (∀ row ∈ rows, row.returned.isSome)
      ∧ kept = Slots.keep (Slots.slot (requested.map wantedPair))
        QuoteRow.pair 0 rows := by
  rw [parseBatchQuotes] at h
  split at h
  · cases h
  · next rows hrows =>
      obtain ⟨others, hothers, hkept⟩ := Runs.bind_eq_ok h
      have hsome := returned_of_keptQuotes _ 0 rows others hothers
      have hslots := keptQuotes_eq (Slots.slot (requested.map wantedPair)) 0 rows QuoteRow.pair
        (fun row hrow => returned_eq_pair (hsome row hrow))
      split at hkept
      · cases hkept
      · refine ⟨rows, hrows, hsome, ?_⟩
        rw [hslots] at hothers
        exact (Except.ok.inj hkept).symm.trans (Except.ok.inj hothers).symm

theorem parseBatchQuotes_sublist {body : List UInt8} {requested : List (ℕ × String)} {kept : List QuoteRow}
    (h : parseBatchQuotes gb18030 body requested = .ok kept) :
    (∃ rows, decodeDynamicResponse gb18030 body = .ok rows ∧ kept.Sublist rows)
      ∧ FollowsLastSlots requested kept := by
  obtain ⟨rows, hrows, hsome, rfl⟩ := parseBatchQuotes_ok gb18030 h
  have hsub := Slots.keep_sublist (Slots.slot (requested.map wantedPair)) QuoteRow.pair 0 rows
  refine ⟨⟨rows, hrows, hsub⟩, ?_⟩
  have hkept : ∀ row ∈ Slots.keep (Slots.slot (requested.map wantedPair)) QuoteRow.pair 0 rows,
      QuoteRow.returned row |>.isSome := fun row hrow => hsome row (hsub.subset hrow)
  refine (sublist_wantedPairs_iff requested.dedup _ hkept).mp ?_
  rw [← dedup_map_wantedPair]
  exact Slots.keep_positions_sublist _ _ rows

theorem parseBatchQuotes_keeps_iff {body : List UInt8} {requested : List (ℕ × String)} {rows : List QuoteRow}
    (hrows : decodeDynamicResponse gb18030 body = .ok rows) (hfollows : FollowsRequest requested rows) :
    parseBatchQuotes gb18030 body requested = .ok rows ↔ FollowsLastSlots requested rows := by
  have hsome : ∀ row ∈ rows, row.returned.isSome := by
    intro row hrow
    have hmem := hfollows.subset (List.mem_map_of_mem hrow)
    obtain ⟨wanted, -, hwanted⟩ := List.mem_map.mp hmem
    rw [← hwanted]
    rfl
  rw [FollowsLastSlots, ← sublist_wantedPairs_iff _ _ hsome, ← dedup_map_wantedPair,
    ← Slots.keep_positions_eq_self_iff (requested.map wantedPair) QuoteRow.pair rows]
  constructor
  · intro h
    obtain ⟨others, hothers, -, hkept⟩ := parseBatchQuotes_ok gb18030 h
    obtain rfl := Except.ok.inj (hrows.symm.trans hothers)
    exact hkept.symm
  · intro hkeep
    have hslots := keptQuotes_eq (Slots.slot (requested.map wantedPair)) 0 rows QuoteRow.pair
      (fun row hrow => returned_eq_pair (hsome row hrow))
    rw [hkeep] at hslots
    rw [parseBatchQuotes, hrows]
    simp only [hslots]
    exact if_neg (fun hnone => hnone.1 hnone.2)

end Answers

/-! ## The symbols left without a record -/

theorem exchange_of_lookup {market : ℕ} {exchange : String} (h : exchanges.lookup market = some exchange) :
    exchange.toList.length = 2 ∧ markets.lookup exchange = some market := by
  have hmem := Dict.mem_of_lookup _ _ _ h
  simp only [exchanges, markets, List.map_cons, List.map_nil, List.mem_cons, Prod.mk.injEq, List.not_mem_nil,
    or_false] at hmem
  rcases hmem with ⟨rfl, rfl⟩ | ⟨rfl, rfl⟩ | ⟨rfl, rfl⟩ <;> exact ⟨rfl, rfl⟩

theorem symbolOf_inj {market market' : ℕ} {code code' symbol : String} (h : symbolOf market code = some symbol)
    (h' : symbolOf market' code' = some symbol) : market = market' ∧ code = code' := by
  obtain ⟨exchange, hexchange, rfl⟩ := Option.map_eq_some_iff.mp h
  obtain ⟨exchange', hexchange', hsymbol⟩ := Option.map_eq_some_iff.mp h'
  obtain ⟨hlength, hmarket⟩ := exchange_of_lookup hexchange
  obtain ⟨hlength', hmarket'⟩ := exchange_of_lookup hexchange'
  -- the exchange is the last two characters
  have hlists := congrArg String.toList hsymbol
  simp only [String.toList_append] at hlists
  obtain ⟨hcodes, hexchanges⟩ := List.append_inj' hlists (by rw [hlength', hlength])
  obtain rfl := String.toList_injective hexchanges
  exact ⟨Option.some.inj (hmarket.symm.trans hmarket'),
    (String.toList_injective (List.append_cancel_right hcodes)).symm⟩

theorem symbol_eq_ok_iff (row : QuoteRow) (symbol : String) :
    row.symbol = .ok symbol
      ↔ ∃ wanted, row.returned = some (wantedPair wanted) ∧ symbolOf wanted.1 wanted.2 = some symbol := by
  rw [QuoteRow.symbol]
  constructor
  · intro h
    split at h
    · next market code hreturned =>
        split at h
        · cases h
        · next hnonneg =>
            split at h
            · next found hfound =>
                obtain rfl := Except.ok.inj h
                refine ⟨(market.toNat, code), ?_, hfound⟩
                rw [hreturned, wantedPair, Int.toNat_of_nonneg (by omega)]
            · cases h
    · cases h
  · rintro ⟨⟨market, code⟩, hreturned, hsymbol⟩
    rw [hreturned]
    simp only [wantedPair, if_neg (by omega : ¬ ((market : ℤ) < 0)), Int.toNat_natCast, hsymbol]

section Evidence

variable {ρ : Type} (toUpper : String → String) (oldToNew : List (String × String))
  (fieldsOf : QuoteRow → Except BatchError ρ)

/-- The security that the symbol stands for has a record among the kept ones. -/
def Recorded (kept : List QuoteRow) (item : String) : Prop :=
  ∃ wanted ∈ (marketCode toUpper oldToNew item).toOption, some (wantedPair wanted) ∈ returnedPairs kept

instance (kept : List QuoteRow) (item : String) : Decidable (Recorded toUpper oldToNew kept item) :=
  inferInstanceAs (Decidable (∃ wanted ∈ (marketCode toUpper oldToNew item).toOption, _))

theorem mem_symbols_iff {kept : List QuoteRow} {rows : List (EvidenceRow ρ)}
    (h : kept.mapM (adapterRow fieldsOf) = .ok rows) (symbol : String) :
    symbol ∈ rows.map EvidenceRow.symbol ↔ ∃ row ∈ kept, QuoteRow.symbol row = .ok symbol := by
  have hrows := (Runs.mapM_ok_iff _ _ _).mp h
  clear h
  induction hrows with
  | nil => simp
  | cons hrow _ ih =>
      obtain ⟨found, hfound, hfields⟩ := Runs.bind_eq_ok hrow
      obtain ⟨fields, -, hmade⟩ := Runs.bind_eq_ok hfields
      obtain rfl := Except.ok.inj hmade
      rw [List.map_cons, List.mem_cons, List.exists_mem_cons_iff, hfound, Except.ok.injEq]
      exact or_congr eq_comm ih

theorem answered_iff {kept : List QuoteRow} {rows : List (EvidenceRow ρ)}
    (hkept : kept.mapM (adapterRow fieldsOf) = .ok rows) {item symbol : String}
    (h : answeredAs toUpper oldToNew item = .ok symbol) :
    symbol ∈ rows.map EvidenceRow.symbol ↔ Recorded toUpper oldToNew kept item := by
  obtain ⟨⟨market, code⟩, hcode, hsymbol⟩ := Runs.bind_eq_ok h
  have hfull : symbolOf market code = some symbol := by
    rcases Option.eq_none_or_eq_some (symbolOf market code) with hnone | ⟨found, hfound⟩
    · simp only [hnone] at hsymbol
      cases hsymbol
    · simp only [hfound] at hsymbol
      rw [hfound, Except.ok.inj hsymbol]
  rw [mem_symbols_iff fieldsOf hkept, Recorded, hcode]
  simp only [Except.toOption, Option.mem_some_iff, exists_eq_left', returnedPairs, List.mem_map]
  constructor
  · rintro ⟨row, hrow, hfound⟩
    obtain ⟨wanted, hreturned, hwanted⟩ := (symbol_eq_ok_iff row symbol).mp hfound
    obtain ⟨hmarket, hcode⟩ := symbolOf_inj hwanted hfull
    exact ⟨row, hrow, by rw [hreturned, ← hmarket, ← hcode]⟩
  · rintro ⟨row, hrow, hreturned⟩
    exact ⟨row, hrow, (symbol_eq_ok_iff row symbol).mpr ⟨(market, code), hreturned, hfull⟩⟩

/-- The entries that no row answers are those of the symbols without a record. -/
theorem missing_eq {kept : List QuoteRow} {rows : List (EvidenceRow ρ)}
    (hkept : kept.mapM (adapterRow fieldsOf) = .ok rows) {symbols : List String}
    {requested : List (String × String)}
    (h : symbols.mapM (fun item => do
      let answer ← answeredAs toUpper oldToNew item
      return (item, answer)) = .ok requested) :
    (requested.filter (fun entry => entry.2 ∉ rows.map EvidenceRow.symbol)).map Prod.fst
      = symbols.filter (fun item => ¬ Recorded toUpper oldToNew kept item) := by
  have hitems := (Runs.mapM_ok_iff _ _ _).mp h
  clear h
  induction hitems with
  | nil => rfl
  | cons hitem _ ih =>
      obtain ⟨symbol, hsymbol, hmade⟩ := Runs.bind_eq_ok hitem
      obtain rfl := Except.ok.inj hmade
      have hiff := answered_iff toUpper oldToNew fieldsOf hkept hsymbol
      simp only [List.filter_cons, hiff]
      split
      · rw [List.map_cons, ih]
      · exact ih

theorem batchEvidence_warnings {kept : List QuoteRow} {rows : List (EvidenceRow ρ)}
    (hkept : kept.mapM (adapterRow fieldsOf) = .ok rows) {symbols : List String} {host : String}
    {evidence : BatchEvidence ρ} (h : batchEvidence toUpper oldToNew rows symbols host = .ok evidence) :
    evidence.warnings = ("tdx_host=" ++ host) :: missingSymbolsWarning
      (symbols.filter (fun item => ¬ Recorded toUpper oldToNew kept item)) := by
  obtain ⟨requested, hrequested, hmade⟩ := Runs.bind_eq_ok h
  obtain rfl := Except.ok.inj hmade
  simp only [← missing_eq toUpper oldToNew fieldsOf hkept hrequested]

/-- The evidence of a batch names the symbols without a record among all the records kept of its answers. -/
theorem fetchBatch_warnings {gb18030 : List UInt8 → String} {answer : ℕ → List UInt8} {symbols : List String}
    {host : String} {evidence : BatchEvidence ρ}
    (h : fetchBatch toUpper oldToNew fieldsOf gb18030 answer symbols host = .ok evidence) :
    ∃ stocks kept, requestedStocks toUpper oldToNew symbols = .ok stocks
      ∧ batchQuotes gb18030 answer stocks = .ok kept
      ∧ evidence.warnings = ("tdx_host=" ++ host) :: missingSymbolsWarning
        (symbols.filter (fun item => ¬ Recorded toUpper oldToNew kept item)) := by
  obtain ⟨stocks, hstocks, hrest⟩ := Runs.bind_eq_ok h
  obtain ⟨kept, hkept, hrest⟩ := Runs.bind_eq_ok hrest
  obtain ⟨rows, hrows, hevidence⟩ := Runs.bind_eq_ok hrest
  exact ⟨stocks, kept, hstocks, hkept, batchEvidence_warnings toUpper oldToNew fieldsOf hrows hevidence⟩

end Evidence

/-! ## The main result -/

theorem followsRequest_of_followsLastSlots {requested : List (ℕ × String)} {rows : List QuoteRow}
    (h : FollowsLastSlots requested rows) : FollowsRequest requested rows ∧ (returnedPairs rows).Nodup := by
  refine ⟨h.trans ((List.dedup_sublist requested).map _), ?_⟩
  refine List.Nodup.sublist h (List.Nodup.map ?_ (List.nodup_dedup requested))
  exact fun one other hsame => wantedPair_injective (Option.some.inj hsame)

/-- **Of an answer that follows the request the parser keeps every record exactly when the answer follows the
last slots of the request. Of any answer it keeps a part, in the order of the request, no security twice; and
an adapter reports missing the symbols whose security has no record among those kept.** -/
theorem batch_quotes_kept_iff {ρ : Type} (toUpper : String → String) (oldToNew : List (String × String))
    (fieldsOf : QuoteRow → Except BatchError ρ) (gb18030 : List UInt8 → String) :
    (∀ body requested rows, decodeDynamicResponse gb18030 body = .ok rows → FollowsRequest requested rows →
        (parseBatchQuotes gb18030 body requested = .ok rows ↔ FollowsLastSlots requested rows))
      ∧ (∀ body requested kept, parseBatchQuotes gb18030 body requested = .ok kept →
        (∃ rows, decodeDynamicResponse gb18030 body = .ok rows ∧ kept.Sublist rows)
          ∧ FollowsRequest requested kept ∧ (returnedPairs kept).Nodup)
      ∧ ∀ answer symbols host evidence,
        fetchBatch toUpper oldToNew fieldsOf gb18030 answer symbols host = .ok evidence →
        ∃ stocks kept, requestedStocks toUpper oldToNew symbols = .ok stocks
          ∧ batchQuotes gb18030 answer stocks = .ok kept
          ∧ evidence.warnings = ("tdx_host=" ++ host) :: missingSymbolsWarning
            (symbols.filter (fun item => ¬ Recorded toUpper oldToNew kept item)) := by
  refine ⟨?_, ?_, ?_⟩
  · intro body requested rows hrows hfollows
    exact parseBatchQuotes_keeps_iff gb18030 hrows hfollows
  · intro body requested kept hkept
    obtain ⟨hpart, hslots⟩ := parseBatchQuotes_sublist gb18030 hkept
    exact ⟨hpart, followsRequest_of_followsLastSlots hslots⟩
  · intro answer symbols host evidence hevidence
    exact fetchBatch_warnings toUpper oldToNew fieldsOf hevidence

/-- A row of a security, without a name. -/
def securityRow (market : UInt16) (code : List UInt8) (h : code.length = 6) : MacRow where
  market := market
  symbol := code ++ List.replicate 16 0
  name := List.replicate 44 0
  word := fun _ => 0
  symbol_length := by rw [List.length_append, h, List.length_replicate]
  name_length := List.length_replicate

/-- The rows of 920017.BJ and of 600519.SH. -/
def bjRow : MacRow := securityRow 2 [0x39, 0x32, 0x30, 0x30, 0x31, 0x37] rfl

def shRow : MacRow := securityRow 1 [0x36, 0x30, 0x30, 0x35, 0x31, 0x39] rfl

/-- The answer to two requests is kept. -/
theorem batch_quotes_kept_two :
    parseBatchQuotes asciiText (encodeResponse (bitmapForBits []) 2 [bjRow, shRow])
        [(2, "920017"), (0, "000001"), (1, "600519")]
      = .ok ([bjRow, shRow].map (MacRow.shown asciiText (bitmapForBits []) 2)) :=
  ((batch_quotes_kept_iff (ρ := Unit) id [] (fun _ => .ok ()) asciiText).1 _ _ _
    (by decide +kernel) (by decide +kernel)).mpr (by decide +kernel)

/-- Characters in upper case, as far as the letters of an exchange go. -/
def asciiUpper (symbol : String) : String := symbol.map Char.toUpper

/-- The old and the new code of one security around another one: the answer follows the request, and only its
    first record is kept. The security between is reported missing. -/
theorem kept_between_old_and_new_code :
    requestedStocks asciiUpper [("430017", "920017")] ["430017.BJ", "600519.SH", "920017.BJ"]
        = .ok [(2, "920017"), (1, "600519"), (2, "920017")]
      ∧ decodeDynamicResponse asciiText (encodeResponse (bitmapForBits []) 3 [bjRow, shRow, bjRow])
        = .ok ([bjRow, shRow, bjRow].map (MacRow.shown asciiText (bitmapForBits []) 3))
      ∧ FollowsRequest [(2, "920017"), (1, "600519"), (2, "920017")]
        ([bjRow, shRow, bjRow].map (MacRow.shown asciiText (bitmapForBits []) 3))
      ∧ parseBatchQuotes asciiText (encodeResponse (bitmapForBits []) 3 [bjRow, shRow, bjRow])
          [(2, "920017"), (1, "600519"), (2, "920017")]
        = .ok ([bjRow].map (MacRow.shown asciiText (bitmapForBits []) 3))
      ∧ (fetchBatch asciiUpper [("430017", "920017")] (fun _ => .ok ()) asciiText
          (fun _ => encodeResponse (bitmapForBits []) 3 [bjRow, shRow, bjRow])
          ["430017.BJ", "600519.SH", "920017.BJ"] "host").toOption.map BatchEvidence.warnings
        = some ["tdx_host=host", "missing_symbols=1: 600519.SH"] := by
  decide +kernel

end TradingHarness
