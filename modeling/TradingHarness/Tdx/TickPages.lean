import TradingHarness.Library.FromNewest
import TradingHarness.Library.Runs
import TradingHarness.Tdx.RoundTrip

set_option autoImplicit false

/-! # Pages of ticks

`TdxClient.ticks` reads a session in pages of two thousand prints, each counted from the newest print of the
moment it is asked for. In a live session prints arrive between two requests. The old prints come back exactly
once when none arrives before the last request; what arrives earlier repeats as many prints as it counts. -/

namespace TradingHarness

/-! ## Requests -/

/-- What the client raises. -/
inductive ClientError
  | parsing (error : ParseError)
  | structError
  | valueError (text : String)
  deriving DecidableEq

def maxTicksPerRequest : ℕ := 2000

variable (market : ℕ) (code : String) (tradeDate start count : ℕ)

/-- `_code`: the ASCII bytes of a code. -/
def codeBytes : Except ClientError (List UInt8) :=
  if code.toList.any (fun char => 128 ≤ char.toNat) then .error (.valueError "ordinal not in range(128)")
  else if code.toList.length ≠ 6 then .error (.valueError "TDX codes are six ASCII digits")
  else .ok (code.toList.map (fun char => UInt8.ofNat char.toNat))

/-- `struct.pack` of one little-endian word, which has to fit. -/
def packWord (width number : ℕ) : Except ClientError (List UInt8) :=
  if number < 256 ^ width then .ok (Wire.toWord width number) else .error .structError

/-- `struct.pack("<H6sHH", market, _code(code), start, count)`. -/
def packTicks : Except ClientError (List UInt8) := do
  let raw ← codeBytes code
  let market ← packWord 2 market
  let start ← packWord 2 start
  let count ← packWord 2 count
  return market ++ raw ++ start ++ count

def buildTicksRequest : Except ClientError (List UInt8) := do
  let fields ← packTicks market code start count
  return [0x0C, 0x17, 0x08, 0x01, 0x01, 0x01, 0x0E, 0x00, 0x0E, 0x00, 0xC5, 0x0F] ++ fields

/-- `build_history_ticks_request`. The date is the number `YYYYMMDD`. -/
def buildHistoryTicksRequest :
    Except ClientError (List UInt8) := do
  let stamp ← packWord 4 tradeDate
  let fields ← packTicks market code start count
  return [0x0C, 0x01, 0x30, 0x01, 0x00, 0x01, 0x12, 0x00, 0x12, 0x00, 0xB5, 0x0F] ++ stamp ++ fields

/-! ## Pages -/

section Pages

-- what the server answers to a request, by its number
variable (exchange : ℕ → List UInt8 → List UInt8) (market : ℕ) (code : String) (tradeDate : Option ℕ)

/-- The rows of a page. -/
def tickRows (page : ℕ) : Except ClientError (List TickRow) := do
  let request ← match tradeDate with
    | none => buildTicksRequest market code (page * maxTicksPerRequest) maxTicksPerRequest
    | some date => buildHistoryTicksRequest market code date (page * maxTicksPerRequest) maxTicksPerRequest
  (parseTicks (exchange page request) tradeDate.isSome).mapError .parsing

/-- The loop of `ticks` from a page on. -/
def tickPages : ℕ → ℕ → Except ClientError (List (List TickRow))
  | 0, _ => .ok []
  | remaining + 1, page => do
    let rows ← tickRows exchange market code tradeDate page
    if rows.length < maxTicksPerRequest then .ok [rows]
    else do
      let pages ← tickPages remaining (page + 1)
      .ok (rows :: pages)

def ticks (maxRequests : ℕ) : Except ClientError (List TickRow) := do
  let pages ← tickPages exchange market code tradeDate maxRequests 0
  return pages.reverse.flatten

end Pages

/-! ## A live session -/

/-- The prints at an offset from the newest one, in time order. -/
def pageOf (prints : List TickRow) (start count : ℕ) : List TickRow :=
  (prints.take (prints.length - start)).drop (prints.length - start - count)

/-- A server that answers the requests with the prints of the session as it is at that moment. -/
def ServesTicks (exchange : ℕ → List UInt8 → List UInt8) (market : ℕ) (code : String)
    (prints : ℕ → List TickRow) : Prop :=
  ∀ request start count bytes, buildTicksRequest market code start count = .ok bytes →
    parseTicks (exchange request bytes) false = .ok (pageOf (prints request) start count)

/-- The prints of a session at each request: those of the request before, and what arrived since. -/
def SessionGrows (prints : ℕ → List TickRow) : Prop := ∀ request, prints request <+: prints (request + 1)

/-- How many prints there are at each request. -/
def counts (prints : ℕ → List TickRow) (request : ℕ) : ℕ := (prints request).length

/-- The positions in the session of the prints that are returned, in the order of the answer. -/
def returnedPositions (prints : ℕ → List TickRow) (maxRequests : ℕ) : List ℕ :=
  FromNewest.asked maxTicksPerRequest (counts prints) maxRequests 0

/-- The rows are the prints at these positions of the session. -/
def AtPositions (prints : List TickRow) (positions : List ℕ) (rows : List TickRow) : Prop :=
  rows.map some = positions.map (fun position => prints[position]?)

theorem prints_prefix {prints : ℕ → List TickRow} (hgrows : SessionGrows prints) {first second : ℕ}
    (h : first ≤ second) : prints first <+: prints second := by
  induction h with
  | refl => exact List.prefix_rfl
  | step _ ih => exact ih.trans (hgrows _)

theorem counts_grow {prints : ℕ → List TickRow} (hgrows : SessionGrows prints) (request : ℕ) :
    counts prints request ≤ counts prints (request + 1) :=
  (hgrows request).length_le

theorem slice_at (items later : List TickRow) (low high : ℕ) (hhigh : high ≤ items.length) :
    AtPositions (items ++ later) (List.range' low (high - low)) ((items.take high).drop low) := by
  refine List.ext_getElem ?_ ?_
  · simp only [List.length_map, List.length_drop, List.length_take, List.length_range']
    omega
  · intro index hindex _
    simp only [List.length_map, List.length_drop, List.length_take] at hindex
    have hlt : low + index < items.length := by omega
    simp only [List.getElem_map, List.getElem_drop, List.getElem_take, List.getElem_range', Nat.one_mul,
      List.getElem?_append_left hlt, List.getElem?_eq_getElem hlt]

theorem pageOf_at {prints : ℕ → List TickRow} (hgrows : SessionGrows prints) {page last : ℕ}
    (hle : page ≤ last) :
    AtPositions (prints last) (FromNewest.window maxTicksPerRequest (counts prints) page)
      (pageOf (prints page) (page * maxTicksPerRequest) maxTicksPerRequest) := by
  obtain ⟨later, hlater⟩ := prints_prefix hgrows hle
  have hupper : FromNewest.upper maxTicksPerRequest (counts prints) page
      = (prints page).length - page * maxTicksPerRequest := by
    rw [FromNewest.upper, Nat.mul_comm]
    rfl
  rw [FromNewest.window, FromNewest.lower, hupper, pageOf, ← hlater]
  exact slice_at _ _ _ _ (Nat.sub_le _ _)

theorem AtPositions.append {prints : List TickRow} {positions positions' : List ℕ} {rows rows' : List TickRow}
    (h : AtPositions prints positions rows) (h' : AtPositions prints positions' rows') :
    AtPositions prints (positions ++ positions') (rows ++ rows') := by
  rw [AtPositions, List.map_append, List.map_append, h, h']

theorem AtPositions.length_eq {prints : List TickRow} {positions : List ℕ} {rows : List TickRow}
    (h : AtPositions prints positions rows) : rows.length = positions.length := by
  have hlength := congrArg List.length h
  rwa [List.length_map, List.length_map] at hlength

/-! ## What the loop reads -/

/-- The last page of which the offset fits its word. -/
def lastPage : ℕ := 32

/-- The request of a page is built exactly when its offset fits. -/
theorem buildTicksRequest_page {market : ℕ} {code : String} {raw : List UInt8} (hcode : codeBytes code = .ok raw)
    (hmarket : market < 2 ^ 16) (page : ℕ) :
    (page ≤ lastPage → ∃ bytes, buildTicksRequest market code (page * maxTicksPerRequest) maxTicksPerRequest
        = .ok bytes)
      ∧ (lastPage < page → buildTicksRequest market code (page * maxTicksPerRequest) maxTicksPerRequest
        = .error .structError) := by
  have hbound : (256 : ℕ) ^ 2 = 65536 := by norm_num
  have hmarket' : packWord 2 market = .ok (Wire.toWord 2 market) := if_pos (by rw [hbound]; omega)
  have hcount : packWord 2 maxTicksPerRequest = .ok (Wire.toWord 2 maxTicksPerRequest) :=
    if_pos (by rw [hbound, maxTicksPerRequest]; omega)
  constructor
  · intro hle
    have hstart : packWord 2 (page * maxTicksPerRequest) = .ok (Wire.toWord 2 (page * maxTicksPerRequest)) := by
      refine if_pos ?_
      rw [hbound, maxTicksPerRequest]
      rw [lastPage] at hle
      omega
    rw [buildTicksRequest, packTicks, hcode, hmarket', hstart, hcount]
    exact ⟨_, rfl⟩
  · intro hlt
    have hstart : packWord 2 (page * maxTicksPerRequest) = .error .structError := by
      refine if_neg ?_
      rw [hbound, maxTicksPerRequest]
      rw [lastPage] at hlt
      omega
    rw [buildTicksRequest, packTicks, hcode, hmarket', hstart]
    rfl

section Live

variable {exchange : ℕ → List UInt8 → List UInt8} {market : ℕ} {code : String} {raw : List UInt8}
  {prints : ℕ → List TickRow}

section

variable (hcode : codeBytes code = .ok raw)

include hcode

section

variable (hmarket : market < 2 ^ 16)

include hmarket

theorem tickRows_live (hserves : ServesTicks exchange market code prints) (page : ℕ) :
    (page ≤ lastPage → tickRows exchange market code none page
        = .ok (pageOf (prints page) (page * maxTicksPerRequest) maxTicksPerRequest))
      ∧ (lastPage < page → tickRows exchange market code none page = .error .structError) := by
  obtain ⟨hfits, hbeyond⟩ := buildTicksRequest_page hcode hmarket page
  constructor
  · intro hle
    obtain ⟨bytes, hbytes⟩ := hfits hle
    have hrows := hserves page _ _ bytes hbytes
    rw [tickRows, hbytes]
    show (parseTicks (exchange page bytes) false).mapError ClientError.parsing = _
    rw [hrows]
    rfl
  · intro hlt
    rw [tickRows, hbeyond hlt]
    rfl

/-- The loop reads the prints at the positions asked for. -/
theorem tickPages_ok (hserves : ServesTicks exchange market code prints) (hgrows : SessionGrows prints)
    (remaining page last : ℕ) (hlast : page + remaining ≤ last)
    (hfits : page + FromNewest.requestCount maxTicksPerRequest (counts prints) remaining page ≤ lastPage + 1) :
    ∃ pages, tickPages exchange market code none remaining page = .ok pages
      ∧ AtPositions (prints last) (FromNewest.asked maxTicksPerRequest (counts prints) remaining page)
        pages.reverse.flatten := by
  induction remaining generalizing page with
  | zero => exact ⟨[], rfl, rfl⟩
  | succ remaining ih =>
      have hat := pageOf_at hgrows (show page ≤ last by omega)
      have hlength := hat.length_eq
      rw [FromNewest.requestCount] at hfits
      rw [FromNewest.asked, tickPages, (tickRows_live hcode hmarket hserves page).1 (by split at hfits <;> omega)]
      simp only [bind, Except.bind, hlength]
      split at hfits
      · next hshort =>
          rw [if_pos hshort, if_pos hshort]
          exact ⟨_, rfl, by simpa using hat⟩
      · next hfull =>
          obtain ⟨pages, hpages, hrest⟩ := ih (page + 1) (by omega) (by omega)
          rw [if_neg hfull, if_neg hfull, hpages]
          refine ⟨_, rfl, ?_⟩
          rw [List.reverse_cons, List.flatten_append]
          exact hrest.append (by simpa using hat)

theorem tickPages_error (hserves : ServesTicks exchange market code prints) (hgrows : SessionGrows prints)
    (remaining page : ℕ) (hpage : page ≤ lastPage + 1)
    (hbeyond : lastPage + 1 < page + FromNewest.requestCount maxTicksPerRequest (counts prints) remaining page) :
    tickPages exchange market code none remaining page = .error .structError := by
  induction remaining generalizing page with
  | zero =>
      rw [FromNewest.requestCount] at hbeyond
      omega
  | succ remaining ih =>
      have hlength := (pageOf_at hgrows (le_refl page)).length_eq
      rw [FromNewest.requestCount] at hbeyond
      rw [tickPages]
      rcases hpage.eq_or_lt with rfl | hless
      · rw [(tickRows_live hcode hmarket hserves _).2 (Nat.lt_succ_self lastPage)]
        rfl
      · rw [(tickRows_live hcode hmarket hserves page).1 (by omega)]
        simp only [bind, Except.bind, hlength]
        split at hbeyond
        · omega
        · next hfull => rw [if_neg hfull, ih (page + 1) (by omega) (by omega)]

end

end

/-! ## The main result -/

/-- The condition under which the old prints are returned exactly once. -/
def ReadUndisturbed (count : ℕ → ℕ) (maxRequests : ℕ) : Prop :=
  FromNewest.Quiet maxTicksPerRequest count maxRequests
      ∧ FromNewest.lastRequest maxTicksPerRequest (count 0) maxRequests ≤ lastPage
    ∨ FromNewest.FloodedAfter maxTicksPerRequest count maxRequests ∧ maxRequests ≤ lastPage + 1

/-- **Every print that existed at the first request is returned exactly once, oldest first, exactly when no
print arrives before the last request (or the session ends with a full page and every page asked for after it
is filled by new prints), and no offset outgrows its word.** -/
theorem ticks_once_iff (hcode : codeBytes code = .ok raw) (hmarket : market < 2 ^ 16)
    (hserves : ServesTicks exchange market code prints) (hgrows : SessionGrows prints) (maxRequests : ℕ)
    (hsession : (prints 0).length ≤ maxTicksPerRequest * maxRequests) :
    (∃ rows, ticks exchange market code none maxRequests = .ok rows
        ∧ AtPositions (prints maxRequests) (returnedPositions prints maxRequests) rows
        ∧ (returnedPositions prints maxRequests).filter (fun position => position < (prints 0).length)
          = List.range (prints 0).length)
      ↔ ReadUndisturbed (counts prints) maxRequests := by
  have hcounts := counts_grow hgrows
  have hsize : 0 < maxTicksPerRequest := by decide
  have honce := FromNewest.old_asked_iff hcounts hsize hsession
  constructor
  · rintro ⟨rows, hrows, -, hold⟩
    have hfits : FromNewest.requestCount maxTicksPerRequest (counts prints) maxRequests 0 ≤ lastPage + 1 := by
      by_contra hbeyond
      rw [ticks, tickPages_error hcode hmarket hserves hgrows maxRequests 0 (Nat.zero_le _) (by omega)] at hrows
      cases hrows
    rcases honce.mp hold with hquiet | hflooded
    · refine Or.inl ⟨hquiet, ?_⟩
      rcases Nat.eq_zero_or_pos maxRequests with rfl | hpos
      · exact Nat.zero_le _
      · rw [FromNewest.requestCount_of_quiet hcounts hsize hpos hquiet] at hfits
        omega
    · refine Or.inr ⟨hflooded, ?_⟩
      rwa [FromNewest.requestCount_of_floodedAfter hcounts hflooded] at hfits
  · intro hundisturbed
    have hold : FromNewest.Quiet maxTicksPerRequest (counts prints) maxRequests
        ∨ FromNewest.FloodedAfter maxTicksPerRequest (counts prints) maxRequests :=
      hundisturbed.imp And.left And.left
    have hfits : FromNewest.requestCount maxTicksPerRequest (counts prints) maxRequests 0 ≤ lastPage + 1 := by
      rcases hundisturbed with ⟨hquiet, hlast⟩ | ⟨hflooded, hmost⟩
      · rcases Nat.eq_zero_or_pos maxRequests with rfl | hpos
        · exact Nat.zero_le _
        · rw [FromNewest.requestCount_of_quiet hcounts hsize hpos hquiet]
          exact Nat.succ_le_succ hlast
      · rwa [FromNewest.requestCount_of_floodedAfter hcounts hflooded]
    obtain ⟨pages, hpages, hat⟩ := tickPages_ok hcode hmarket hserves hgrows maxRequests 0 maxRequests
      (by omega) (by omega)
    refine ⟨pages.reverse.flatten, ?_, hat, honce.mpr hold⟩
    rw [ticks, hpages]
    rfl

end Live

/-! ## A server -/

variable (session : ℕ → List TickPrint) (request : ℕ) (bytes : List UInt8)

/-- The offset and the count of a request, which stand behind its header, the market and the code. -/
def readTicksRequest : ℕ × ℕ :=
  ((Wire.readWord bytes 20 2).getD 0, (Wire.readWord bytes 22 2).getD 0)

/-- A server that encodes the prints at the positions of a request. -/
def serveTicks : List UInt8 :=
  let (start, count) := readTicksRequest bytes
  let prints := session request
  encodeTicks false 0 ((prints.take (prints.length - start)).drop (prints.length - start - count))

/-- The rows that the parser shows for the prints of a session. -/
def shownSession : List TickRow :=
  (session request).map (TickPrint.shown false)

theorem packWord_eq_ok {width number : ℕ} {bytes : List UInt8} (h : packWord width number = .ok bytes) :
    number < 256 ^ width ∧ bytes = Wire.toWord width number := by
  rw [packWord] at h
  split at h
  · next hlt => exact ⟨hlt, (Except.ok.inj h).symm⟩
  · cases h

theorem length_codeBytes {code : String} {raw : List UInt8} (h : codeBytes code = .ok raw) : raw.length = 6 := by
  rw [codeBytes] at h
  split at h
  · cases h
  · split at h
    · cases h
    · next hlength =>
        rw [← Except.ok.inj h, List.length_map]
        exact not_not.mp hlength

theorem readTicksRequest_build {market : ℕ} {code : String} {start count : ℕ} {bytes : List UInt8}
    (h : buildTicksRequest market code start count = .ok bytes) : readTicksRequest bytes = (start, count) := by
  obtain ⟨fields, hfields, hbytes⟩ := Runs.bind_eq_ok h
  obtain ⟨raw, hraw, hfields⟩ := Runs.bind_eq_ok hfields
  obtain ⟨marketBytes, hmarket, hfields⟩ := Runs.bind_eq_ok hfields
  obtain ⟨startBytes, hstart, hfields⟩ := Runs.bind_eq_ok hfields
  obtain ⟨countBytes, hcount, hfields⟩ := Runs.bind_eq_ok hfields
  obtain rfl := Except.ok.inj hfields
  obtain rfl := Except.ok.inj hbytes
  obtain ⟨-, rfl⟩ := packWord_eq_ok hmarket
  obtain ⟨hstartLt, rfl⟩ := packWord_eq_ok hstart
  obtain ⟨hcountLt, rfl⟩ := packWord_eq_ok hcount
  have hall := Wire.at_zero ([0x0C, 0x17, 0x08, 0x01, 0x01, 0x01, 0x0E, 0x00, 0x0E, 0x00, 0xC5, 0x0F]
    ++ (Wire.toWord 2 market ++ raw ++ Wire.toWord 2 start ++ Wire.toWord 2 count)) []
  rw [List.append_nil] at hall
  obtain ⟨-, hbehind⟩ := (Wire.at_append _ _ _ _).mp hall
  obtain ⟨hupto, hcountAt⟩ := (Wire.at_append _ _ _ _).mp hbehind
  obtain ⟨-, hstartAt⟩ := (Wire.at_append _ _ _ _).mp hupto
  simp only [List.length_append, Wire.length_toWord, length_codeBytes hraw, List.length_cons,
    List.length_nil] at hstartAt hcountAt
  rw [readTicksRequest, Wire.readWord_at _ _ _ _ hstartLt hstartAt, Wire.readWord_at _ _ _ _ hcountLt hcountAt]
  rfl

theorem serveTicks_serves (market : ℕ) (code : String)
    (hcount : ∀ request, (session request).length < 2 ^ 16) :
    ServesTicks (serveTicks session) market code (shownSession session) := by
  intro request start count bytes hbytes
  have hread := readTicksRequest_build hbytes
  have hpage : ((((session request).take ((session request).length - start)).drop
      ((session request).length - start - count))).length < 2 ^ 16 := by
    rw [List.length_drop, List.length_take]
    have := hcount request
    omega
  have hparsed := (records_read_back.2.2 false 0 _ [] hpage).1
  rw [List.append_nil] at hparsed
  rw [serveTicks, hread]
  simp only [hparsed, pageOf, shownSession, List.length_map, List.map_drop, List.map_take]

/-- A print of the opening. -/
def openingPrint : TickPrint where
  hour := 9
  minute := 30
  price := 1159
  volume := 100
  prints := 1
  sideCode := 0
  reserved := 0
  time_fits := by decide
  minute_fits := by decide

/-- A session of three prints, to which nothing is added. -/
def quietSession (_ : ℕ) : List TickPrint := List.replicate 3 openingPrint

theorem codeBytes_firstCode : codeBytes "000001" = .ok [0x30, 0x30, 0x30, 0x30, 0x30, 0x31] := by
  rw [codeBytes, if_neg (by decide), if_neg (by decide)]
  rfl

theorem ticks_once_quietSession :
    ∃ rows, ticks (serveTicks quietSession) 0 "000001" none 20 = .ok rows
      ∧ AtPositions (shownSession quietSession 20) (returnedPositions (shownSession quietSession) 20) rows
      ∧ (returnedPositions (shownSession quietSession) 20).filter
          (fun position => position < (shownSession quietSession 0).length)
        = List.range (shownSession quietSession 0).length :=
  (ticks_once_iff codeBytes_firstCode (by decide)
    (serveTicks_serves quietSession 0 "000001" (fun _ => show 3 < 2 ^ 16 by decide)) (fun _ => List.prefix_rfl)
    20 (by decide)).mpr (Or.inl ⟨rfl, by decide⟩)

/-- A session of one full page, to which one print is added after the first request. -/
def arrivingSession : List TickPrint :=
  List.replicate (if request = 0 then 2000 else 2001) openingPrint

theorem length_arrivingSession :
    counts (shownSession arrivingSession) request = if request = 0 then 2000 else 2001 := by
  rw [counts, shownSession, arrivingSession, List.length_map, List.length_replicate]

/-- The first print of the session is returned a second time. -/
theorem first_print_returned_twice :
    ServesTicks (serveTicks arrivingSession) 0 "000001" (shownSession arrivingSession)
      ∧ SessionGrows (shownSession arrivingSession)
      ∧ (shownSession arrivingSession 0).length = 2000
      ∧ returnedPositions (shownSession arrivingSession) 20 = 0 :: List.range 2000
      ∧ (∃ rows, ticks (serveTicks arrivingSession) 0 "000001" none 20 = .ok rows
        ∧ AtPositions (shownSession arrivingSession 20) (0 :: List.range 2000) rows ∧ rows.length = 2001)
      ∧ (returnedPositions (shownSession arrivingSession) 20).filter (fun position => position < 2000)
        ≠ List.range 2000 := by
  have hserves := serveTicks_serves arrivingSession 0 "000001" (by
    intro request
    rw [arrivingSession, List.length_replicate]
    split <;> decide)
  have hgrows : SessionGrows (shownSession arrivingSession) := by
    intro request
    rw [shownSession, shownSession, arrivingSession, arrivingSession, List.map_replicate, List.map_replicate]
    split
    · exact ⟨[openingPrint.shown false], by rw [← List.replicate_succ']; rfl⟩
    · exact List.prefix_rfl
  have hcounts := length_arrivingSession
  have hfirst : FromNewest.window maxTicksPerRequest (counts (shownSession arrivingSession)) 0
      = List.range 2000 := by
    simp [FromNewest.window, FromNewest.lower, FromNewest.upper, hcounts, List.range_eq_range',
      maxTicksPerRequest]
  have hsecond : FromNewest.window maxTicksPerRequest (counts (shownSession arrivingSession)) 1 = [0] := by
    simp [FromNewest.window, FromNewest.lower, FromNewest.upper, hcounts, maxTicksPerRequest]
  have hfull : ¬ (List.range 2000).length < maxTicksPerRequest := by
    rw [List.length_range, maxTicksPerRequest]
    omega
  have hshort : ([0] : List ℕ).length < maxTicksPerRequest := by
    rw [List.length_singleton, maxTicksPerRequest]
    omega
  have hpositions : returnedPositions (shownSession arrivingSession) 20 = 0 :: List.range 2000 := by
    rw [returnedPositions, FromNewest.asked, hfirst, if_neg hfull, FromNewest.asked, hsecond, if_pos hshort,
      List.singleton_append]
  have hrequests : FromNewest.requestCount maxTicksPerRequest (counts (shownSession arrivingSession)) 20 0
      = 2 := by
    rw [FromNewest.requestCount, hfirst, if_neg hfull, FromNewest.requestCount, hsecond, if_pos hshort]
  have hread : ∃ rows, ticks (serveTicks arrivingSession) 0 "000001" none 20 = .ok rows
      ∧ AtPositions (shownSession arrivingSession 20) (0 :: List.range 2000) rows := by
    obtain ⟨pages, hpages, hat⟩ := tickPages_ok codeBytes_firstCode (by decide) hserves hgrows 20 0 20 (by omega)
      (by rw [hrequests]; decide)
    refine ⟨pages.reverse.flatten, ?_, ?_⟩
    · rw [ticks, hpages]
      rfl
    · rw [← hpositions]
      exact hat
  obtain ⟨rows, hrows, hat⟩ := hread
  refine ⟨hserves, hgrows, ?_, hpositions, ⟨rows, hrows, hat, ?_⟩, ?_⟩
  · exact hcounts 0
  · rw [hat.length_eq, List.length_cons, List.length_range]
  · rw [hpositions]
    intro hsame
    have hlength := congrArg List.length hsame
    rw [List.filter_cons_of_pos (by decide), List.length_cons, List.length_range] at hlength
    have hall : (List.range 2000).filter (fun position => position < 2000) = List.range 2000 :=
      List.filter_eq_self.mpr (fun position hposition => decide_eq_true (List.mem_range.mp hposition))
    rw [hall, List.length_range] at hlength
    omega

end TradingHarness
