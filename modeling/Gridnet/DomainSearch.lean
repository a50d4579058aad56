import Gridnet.DomainSupply
import Gridnet.Paging
import Mathlib.Data.Int.GCD
import Mathlib.Data.Nat.Prime.Basic

/-! Paged domain search. The matching domains are collected anew for each page, the one named by the query first, and
the page is cut out of them at positions computed in words of 64 bits. The positions wrap around: unless the pages are
of one entry or hardly anything matches, pages far behind the last one show entries again. A domain that is named by
a query shorter than its address is found under both, and collected twice. -/

namespace Gridnet

/-- What the filter reads of an identity token. -/
structure TokenView where
  getPublicKeyTxt : String
  getFriendlyID : String
  getConsumedCoins : Int

/-- What the filter reads of a `CDomainDesc`. -/
structure DomainDescription where
  getDomain : String
  getTxCountTxt : String
  getLockedBalanceTxt : String
  getBalanceTxt : String
  getTxTotalReceivedTxt : String
  getTxTotalSentTxt : String
  getPerspective : String
  getPerspectivesCount : Nat
  getIdentityToken : Option TokenView

/-- A search filter: its standard flags and its arbitrary flags with their values. -/
structure CSearchFilter where
  domains : Bool
  addresses : Bool
  arbitraryFlags : List (String × String)

namespace CSearchFilter

def hasArbitraryFlag (filter : CSearchFilter) (key : String) : Bool := (filter.arbitraryFlags.lookup key).isSome
def getArbitraryFlagValue (filter : CSearchFilter) (key : String) : String :=
  (filter.arbitraryFlags.lookup key).getD ""
def getArbitraryFlagCount (filter : CSearchFilter) : Nat := filter.arbitraryFlags.length

end CSearchFilter

/-- The tools and the state trie. A node found under a full id is the domain with this address. -/
structure DomainServices (Domain : Type) where
  stringToBytes : String → Bytes
  isDomainIDValid : Bytes → Bool
  findNodeByFullID : Bytes → Option Domain
  getAddress : Domain → Bytes
  address_found : ∀ {id domain}, findNodeByFullID id = some domain → getAddress domain = id
  createDomainDescription : Domain → DomainDescription
  trim : String → String
  findStringIC : String → String → Bool
  attoToGNCStr : Int → String

/-- How a search ends: with results, with the exception of `CSearchResults`, or with entries from outside the list. -/
inductive SearchOutcome where
  | results (entries : List DomainDescription) (totalCount currentPage itemsPerPage : UInt64)
  | invalidArgument (message : String)
  | outOfRange

/-- The constructor of `CSearchResults`, which validates its inputs. -/
def makeSearchResults (entries : List DomainDescription) (totalCount currentPage itemsPerPage : UInt64) : SearchOutcome :=
  if currentPage < 1 then .invalidArgument "Current page must be a positive integer"
  else if itemsPerPage < 1 then .invalidArgument "Items per page must be a positive integer"
  else .results entries totalCount currentPage itemsPerPage

/-- The elements between two positions, if there are such. -/
def assignRange {α : Type} (elements : List α) (first last : Nat) : Option (List α) :=
  if first ≤ last ∧ last ≤ elements.length then some ((elements.take last).drop first) else none

/-- A page cut out of the collected entries. -/
def paginate (allMatchingDomains : List DomainDescription) (size page : UInt64) : SearchOutcome :=
  let startIndex := (page - 1) * size
  let totalCount := UInt64.ofNat allMatchingDomains.length
  if startIndex < totalCount then
    let endIndex := min (startIndex + size) totalCount
    match assignRange allMatchingDomains startIndex.toNat endIndex.toNat with
    | none => .outOfRange
    | some paginatedResults => makeSearchResults paginatedResults totalCount page size
  else makeSearchResults [] totalCount page size

namespace DomainServices

variable {Domain : Type} (S : DomainServices Domain)

def findByID (id : Bytes) : Option Domain :=
  let id := StateDomainManager.paddedID id
  if S.isDomainIDValid id = false then none
  else
    match S.findNodeByFullID id with
    | none => none
    | some toRet =>
        if S.isDomainIDValid (S.getAddress toRet) = false then none
        else if id.take 32 ≠ (S.getAddress toRet).take 32 then none
        else some toRet

def checkProperty (filter : CSearchFilter) (propertyName value : String) : Bool :=
  let key := "domain_" ++ propertyName
  if filter.hasArbitraryFlag key then
    let requestedValue := S.trim (filter.getArbitraryFlagValue key)
    if requestedValue.isEmpty then !(S.trim value).isEmpty
    else S.findStringIC value requestedValue
  else false

def matchesDomainFilter (domainDesc : DomainDescription) (query : String) (filter : CSearchFilter) : Bool :=
  if !filter.domains && !filter.addresses then false
  else
    let trimmedQuery := S.trim query
    let ofDomain := [("domain", domainDesc.getDomain), ("txCount", domainDesc.getTxCountTxt),
      ("lockedBalance", domainDesc.getLockedBalanceTxt), ("balance", domainDesc.getBalanceTxt),
      ("txTotalReceived", domainDesc.getTxTotalReceivedTxt), ("txTotalSent", domainDesc.getTxTotalSentTxt),
      ("perspective", domainDesc.getPerspective), ("perspectivesCount", toString domainDesc.getPerspectivesCount)]
    let ofToken := match domainDesc.getIdentityToken with
      | none => []
      | some idToken => [("publicKey", idToken.getPublicKeyTxt), ("nickname", idToken.getFriendlyID),
          ("stake", S.attoToGNCStr idToken.getConsumedCoins)]
    if (ofDomain ++ ofToken).any fun property => S.checkProperty filter property.1 property.2 then true
    else if filter.getArbitraryFlagCount = 0 then
      if trimmedQuery.isEmpty then false
      else
        S.findStringIC domainDesc.getDomain trimmedQuery || S.findStringIC domainDesc.getBalanceTxt trimmedQuery ||
          domainDesc.getIdentityToken.any fun idToken =>
            S.findStringIC idToken.getPublicKeyTxt trimmedQuery || S.findStringIC idToken.getFriendlyID trimmedQuery
    else false

variable (domainIDs : List Bytes) (query : String) (filter : CSearchFilter)

/-- The domain found under an id, if its description matches. -/
def findMatching (id : Bytes) : Option Domain :=
  (S.findByID id).filter fun domain => S.matchesDomainFilter (S.createDomainDescription domain) query filter

/-- The domains that are collected: the exact match, and the matches of the known domains but for its id. -/
def matchingDomains : List Domain :=
  let exactDomainID := S.stringToBytes query
  (if S.isDomainIDValid exactDomainID then (S.findMatching query filter exactDomainID).toList else []) ++
    (domainIDs.filter (· ≠ exactDomainID)).filterMap (S.findMatching query filter)

def searchDomains {DB : Type} (T : StateTrie DB) (manager : StateDomainManager DB) (query : String)
    (filter : CSearchFilter) (size page : UInt64) : SearchOutcome :=
  let domainIDs := (manager.getKnownDomainIDs T true).1
  paginate ((S.matchingDomains domainIDs query filter).map S.createDomainDescription) size page

end DomainServices

/-! ### Pages -/

/-- `search` shows a list in pages: the pages that are not beyond it make it up, each but the last is full, those
beyond it are empty, and no page has entries from outside the list. -/
structure ShowsPages (entries : List DomainDescription) (size : UInt64) (search : UInt64 → SearchOutcome) : Prop where
  pages : ∃ shown : Nat → List DomainDescription,
    (∀ page : UInt64, 1 ≤ page.toNat → page.toNat ≤ Paging.pages entries size.toNat →
      search page = .results (shown (page.toNat - 1)) (.ofNat entries.length) page size) ∧
    (List.range (Paging.pages entries size.toNat)).flatMap shown = entries ∧
    ∀ i, i + 1 < Paging.pages entries size.toNat → (shown i).length = size.toNat
  beyond : ∀ page : UInt64, Paging.pages entries size.toNat < page.toNat →
    search page = .results [] (.ofNat entries.length) page size
  inRange : ∀ page, search page ≠ .outOfRange

section Pagination

variable {entries : List DomainDescription} {size page : UInt64}

theorem toNat_start (hpage : page ≠ 0) :
    ((page - 1) * size).toNat = (page.toNat - 1) * size.toNat % 2 ^ 64 := by
  have hpos : 1 ≤ page := by
    rw [UInt64.le_iff_toNat_le]
    exact Nat.one_le_iff_ne_zero.mpr fun hzero => hpage (UInt64.toNat_inj.mp hzero)
  rw [UInt64.toNat_mul, UInt64.toNat_sub_of_le _ _ hpos]
  rfl

theorem toNat_min_word (a b : UInt64) : (min a b).toNat = min a.toNat b.toNat := by
  have hmin : min a b = if a ≤ b then a else b := rfl
  simp only [hmin, min_def, ← UInt64.le_iff_toNat_le]
  split_ifs <;> rfl

/-- The page is cut out at its start, and leaves the list if its end wraps around. -/
theorem paginate_eq (hlength : entries.length < 2 ^ 64) :
    paginate entries size page =
      if ((page - 1) * size).toNat < entries.length ∧ 2 ^ 64 ≤ ((page - 1) * size).toNat + size.toNat then .outOfRange
      else makeSearchResults ((entries.drop ((page - 1) * size).toNat).take size.toNat) (.ofNat entries.length)
        page size := by
  have htotal : (UInt64.ofNat entries.length).toNat = entries.length := UInt64.toNat_ofNat_of_lt' hlength
  rw [paginate]
  generalize (page - 1) * size = start
  have hsize := size.toNat_lt
  have hend : (min (start + size) (UInt64.ofNat entries.length)).toNat =
      min ((start.toNat + size.toNat) % 2 ^ 64) entries.length := by
    rw [toNat_min_word, UInt64.toNat_add, htotal]
  by_cases hin : start < UInt64.ofNat entries.length
  · have hin' : start.toNat < entries.length := htotal ▸ UInt64.lt_iff_toNat_lt.mp hin
    simp only [if_pos hin, hend]
    by_cases hwrap : 2 ^ 64 ≤ start.toNat + size.toNat
    · have hcut : assignRange entries start.toNat (min ((start.toNat + size.toNat) % 2 ^ 64) entries.length) = none :=
        if_neg (by omega)
      rw [hcut, if_pos ⟨hin', hwrap⟩]
    · have hcut : assignRange entries start.toNat (min ((start.toNat + size.toNat) % 2 ^ 64) entries.length) =
          some ((entries.drop start.toNat).take size.toNat) := by
        rw [assignRange, if_pos (by omega), List.drop_take, Option.some.injEq, List.take_eq_take_iff, List.length_drop]
        omega
      rw [hcut, if_neg fun h => hwrap h.2]
  · have hout : entries.length ≤ start.toNat := by
      rw [UInt64.lt_iff_toNat_lt, htotal] at hin
      exact Nat.le_of_not_lt hin
    rw [if_neg hin, if_neg fun h => absurd h.1 (Nat.not_lt.mpr hout), List.drop_eq_nil_of_le hout, List.take_nil]

variable (hsize : size ≠ 0)
include hsize

theorem makeSearchResults_eq {shown : List DomainDescription} {total : UInt64} (hpage : page ≠ 0) :
    makeSearchResults shown total page size = .results shown total page size := by
  have hpos : ∀ {w : UInt64}, w ≠ 0 → ¬w < 1 := by
    intro w hw hlt
    rw [UInt64.lt_iff_toNat_lt] at hlt
    exact hw (UInt64.toNat_inj.mp (Nat.lt_one_iff.mp hlt))
  rw [makeSearchResults, if_neg (hpos hpage), if_neg (hpos hsize)]

/-- A page whose start does not wrap around is the page of the list. -/
theorem paginate_of_unwrapped (hlength : entries.length < 2 ^ 58) (hpage : page ≠ 0)
    (hstart : (page.toNat - 1) * size.toNat < 2 ^ 64) :
    paginate entries size page =
      .results (Paging.page entries size.toNat (page.toNat - 1)) (.ofNat entries.length) page size := by
  have hsize' := size.toNat_lt
  rw [paginate_eq (hlength.trans (by decide)), toNat_start hpage, Nat.mod_eq_of_lt hstart,
    makeSearchResults_eq hsize hpage]
  refine if_neg ?_
  rintro ⟨hin, hwrap⟩
  -- behind the first page the size is at most the start, and so short
  rcases Nat.eq_zero_or_pos (page.toNat - 1) with hfirst | hlater
  · rw [hfirst] at hwrap
    omega
  · have := Nat.le_mul_of_pos_left size.toNat hlater
    omega

/-- A page whose start wraps around shows nothing exactly if it starts behind the list all the same. -/
theorem paginate_of_wrapped (hlength : entries.length < 2 ^ 58) (hpage : page ≠ 0) :
    paginate entries size page = .results [] (.ofNat entries.length) page size ↔
      entries.length ≤ (page.toNat - 1) * size.toNat % 2 ^ 64 := by
  have hpos : size.toNat ≠ 0 := fun hzero => hsize (UInt64.toNat_inj.mp hzero)
  rw [paginate_eq (hlength.trans (by decide)), toNat_start hpage, makeSearchResults_eq hsize hpage]
  constructor
  · intro hempty
    split_ifs at hempty with hin
    have hcut := (SearchOutcome.results.inj hempty).1
    rcases List.take_eq_nil_iff.mp hcut with hzero | hdrop
    · exact absurd hzero hpos
    · exact List.drop_eq_nil_iff.mp hdrop
  · intro hout
    rw [if_neg fun h => absurd h.1 (Nat.not_lt.mpr hout), List.drop_eq_nil_of_le hout, List.take_nil]

theorem toNat_ne_zero : 0 < size.toNat :=
  Nat.pos_of_ne_zero fun hzero => hsize (UInt64.toNat_inj.mp hzero)

/-- The pages of a list that are not beyond it start where they should. -/
theorem paginate_of_le_pages (hlength : entries.length < 2 ^ 58) (hfrom : 1 ≤ page.toNat)
    (hto : page.toNat ≤ Paging.pages entries size.toNat) :
    paginate entries size page =
      .results (Paging.page entries size.toNat (page.toNat - 1)) (.ofNat entries.length) page size := by
  have hpage : page ≠ 0 := by
    rintro rfl
    cases hfrom
  have hin : (page.toNat - 1) * size.toNat < entries.length :=
    (Paging.lt_pages_iff (toNat_ne_zero hsize)).mp (by omega)
  exact paginate_of_unwrapped hsize hlength hpage (by omega)

/-- What is shown in pages is the list that is cut into pages. -/
theorem eq_of_showsPages {collected : List DomainDescription} (hlength : entries.length < 2 ^ 58)
    (hcollected : collected.length < 2 ^ 58) (hshows : ShowsPages entries size (paginate collected size)) :
    collected = entries := by
  obtain ⟨shown, hpages, hall, -⟩ := hshows.pages
  have hcount : collected.length = entries.length := by
    have hfirst : paginate collected size 1 = .results (Paging.page collected size.toNat 0)
        (.ofNat collected.length) 1 size := paginate_of_unwrapped hsize hcollected (by decide) (by simp)
    have htotal : UInt64.ofNat collected.length = UInt64.ofNat entries.length := by
      rcases Nat.lt_or_ge (Paging.pages entries size.toNat) 1 with hnone | hsome
      · exact (SearchOutcome.results.inj (hfirst.symm.trans (hshows.beyond 1 hnone))).2.1
      · exact (SearchOutcome.results.inj (hfirst.symm.trans (hpages 1 le_rfl hsome))).2.1
    rw [← UInt64.toNat_inj, UInt64.toNat_ofNat_of_lt' (hcollected.trans (by decide)),
      UInt64.toNat_ofNat_of_lt' (hlength.trans (by decide))] at htotal
    exact htotal
  have hsame : Paging.pages collected size.toNat = Paging.pages entries size.toNat := by
    rw [Paging.pages, Paging.pages, hcount]
  have hshown : ∀ i ∈ List.range (Paging.pages entries size.toNat),
      Paging.page collected size.toNat i = shown i := by
    intro i hi
    rw [List.mem_range] at hi
    have hword : (UInt64.ofNat (i + 1)).toNat = i + 1 := by
      have := (Paging.lt_pages_iff (toNat_ne_zero hsize)).mp hi
      have := Nat.le_mul_of_pos_right i (toNat_ne_zero hsize)
      exact UInt64.toNat_ofNat_of_lt' (show i + 1 < 2 ^ 64 by omega)
    have hfrom : 1 ≤ (UInt64.ofNat (i + 1)).toNat := by omega
    have hcut := paginate_of_le_pages hsize hcollected hfrom (by omega)
    have hpage := hpages _ hfrom (by omega)
    rw [hword] at hcut hpage
    exact (SearchOutcome.results.inj (hcut.symm.trans hpage)).1
  calc collected = (List.range (Paging.pages collected size.toNat)).flatMap (Paging.page collected size.toNat) :=
        (Paging.flatMap_pages (toNat_ne_zero hsize)).symm
    _ = (List.range (Paging.pages entries size.toNat)).flatMap shown := by
        rw [hsame]
        exact List.flatMap_congr hshown
    _ = entries := hall

/-- A list is shown in pages where every page beyond it starts behind it and the page before the first is none of
its pages. -/
theorem showsPages_of_beyond (hlength : entries.length < 2 ^ 58)
    (hbeyond : ∀ page : UInt64, Paging.pages entries size.toNat < page.toNat →
      entries.length ≤ (page.toNat - 1) * size.toNat % 2 ^ 64)
    (hzero : paginate entries size 0 ≠ .outOfRange) : ShowsPages entries size (paginate entries size) := by
  have hshown : ∀ page : UInt64, Paging.pages entries size.toNat < page.toNat →
      paginate entries size page = .results [] (.ofNat entries.length) page size := by
    intro page hpage
    refine (paginate_of_wrapped hsize hlength ?_).mpr (hbeyond page hpage)
    rintro rfl
    exact absurd hpage (Nat.not_lt_zero _)
  refine ⟨⟨Paging.page entries size.toNat, ?_, Paging.flatMap_pages (toNat_ne_zero hsize), ?_⟩, hshown, ?_⟩
  · exact fun page hfrom hto => paginate_of_le_pages hsize hlength hfrom hto
  · exact fun i hi => Paging.length_page (toNat_ne_zero hsize) hi
  · intro page hout
    rcases Nat.eq_zero_or_pos page.toNat with hpage | hpage
    · rw [UInt64.toNat_inj.mp (hpage.trans UInt64.toNat_zero.symm)] at hout
      exact hzero hout
    · rcases Nat.lt_or_ge (Paging.pages entries size.toNat) page.toNat with hfar | hnear
      · cases (hshown page hfar).symm.trans hout
      · cases (paginate_of_le_pages hsize hlength hpage hnear).symm.trans hout

omit hsize in
theorem odd_inverse (hodd : size.toNat % 2 = 1) : ∃ m < 2 ^ 64, m * size.toNat % 2 ^ 64 = 1 := by
  have hcoprime : Nat.Coprime size.toNat (2 ^ 64) :=
    Nat.Coprime.pow_right 64 (Nat.coprime_two_right.mpr (Nat.odd_iff.mpr hodd))
  obtain ⟨m, hm, hinverse⟩ := Nat.exists_mul_mod_eq_one_of_coprime hcoprime (by decide)
  exact ⟨m, hm, Nat.mul_comm size.toNat m ▸ hinverse⟩

/-- A list is shown in pages exactly if no page far behind it starts in it again: the pages are of one entry, or
nothing is in the list, or one entry and the size is odd. -/
theorem showsPages_iff (hlength : entries.length < 2 ^ 58) : ShowsPages entries size (paginate entries size) ↔
    size = 1 ∨ entries.length = 0 ∨ entries.length = 1 ∧ size.toNat % 2 = 1 := by
  have hpos := toNat_ne_zero hsize
  have hword := size.toNat_lt
  have hbefore : ((0 - 1) * size).toNat = (2 ^ 64 - 1) * size.toNat % 2 ^ 64 := by rw [UInt64.toNat_mul]; rfl
  constructor
  · intro hshows
    have hbehind : ∀ m : Nat, m + 1 < 2 ^ 64 → Paging.pages entries size.toNat ≤ m →
        entries.length ≤ m * size.toNat % 2 ^ 64 := by
      intro m hm hpages
      have hpage : (UInt64.ofNat (m + 1)).toNat = m + 1 := UInt64.toNat_ofNat_of_lt' hm
      have hne : UInt64.ofNat (m + 1) ≠ 0 := by
        intro hzero
        rw [hzero] at hpage
        cases hpage
      have hempty := (paginate_of_wrapped hsize hlength hne).mp (hshows.beyond _ (by omega))
      rwa [hpage, Nat.add_sub_cancel] at hempty
    have hfew : Paging.pages entries size.toNat ≤ entries.length :=
      (Paging.pages_le_iff hpos).mpr (Nat.le_mul_of_pos_right _ hpos)
    rcases Nat.eq_zero_or_pos entries.length with hnone | hsome
    · exact .inr (.inl hnone)
    rcases Nat.mod_two_eq_zero_or_one size.toNat with heven | hodd
    · -- the start of page 2 ^ 63 + 1 wraps around to the start of the list
      obtain ⟨half, hhalf⟩ : ∃ half, size.toNat = 2 * half := ⟨size.toNat / 2, by omega⟩
      have hwrapped : 2 ^ 63 * size.toNat % 2 ^ 64 = 0 := by
        rw [hhalf, ← Nat.mul_assoc, ← Nat.pow_succ]
        exact Nat.mul_mod_right _ _
      have := hbehind (2 ^ 63) (by decide) (by omega)
      omega
    · refine or_iff_not_imp_left.mpr fun hmany => .inr ⟨?_, hodd⟩
      obtain ⟨m, hm, hinverse⟩ := odd_inverse hodd
      by_contra hne
      have hfar : Paging.pages entries size.toNat ≤ m := by
        by_contra hnear
        have hin := (Paging.lt_pages_iff hpos).mp (Nat.lt_of_not_le hnear)
        rw [Nat.mod_eq_of_lt (by omega)] at hinverse
        exact hmany (UInt64.toNat_inj.mp (Nat.eq_one_of_mul_eq_one_left hinverse))
      rcases Nat.lt_or_ge (m + 1) (2 ^ 64) with hpage | hlast
      · have := hbehind m hpage hfar
        omega
      · -- the inverse of the size is that of the page before the first, which leaves the list
        apply hshows.inRange 0
        have hall : m = 2 ^ 64 - 1 := by omega
        have hwhole : size.toNat = 2 ^ 64 - 1 := by
          subst hall
          omega
        rw [paginate_eq (hlength.trans (by decide)), hbefore, ← hall, hinverse, if_pos]
        omega
  · rintro (rfl | hnone | ⟨hone, hodd⟩)
    · refine showsPages_of_beyond hsize hlength ?_ ?_
      · intro page hpage
        have hlast := page.toNat_lt
        have hpages : Paging.pages entries 1 ≤ page.toNat - 1 := Nat.le_sub_one_of_lt hpage
        rw [Paging.pages_le_iff one_pos] at hpages
        rwa [UInt64.toNat_one, Nat.mod_eq_of_lt (by omega)]
      · rw [paginate_eq (hlength.trans (by decide)), hbefore, if_neg]
        · exact fun h => by cases h
        · rintro ⟨hin, -⟩
          simp at hin
          omega
    · refine showsPages_of_beyond hsize hlength (fun _ _ => hnone ▸ Nat.zero_le _) ?_
      rw [paginate_eq (hlength.trans (by decide)), hnone, if_neg fun h => absurd h.1 (Nat.not_lt_zero _)]
      exact fun h => by cases h
    · refine showsPages_of_beyond hsize hlength ?_ ?_
      · intro page hpage
        have hlast := page.toNat_lt
        have hpages : Paging.pages entries size.toNat ≤ page.toNat - 1 := Nat.le_sub_one_of_lt hpage
        rw [Paging.pages_le_iff hpos, hone] at hpages
        rw [hone, Nat.one_le_iff_ne_zero, Ne, ← Nat.dvd_iff_mod_eq_zero]
        intro hwrapped
        have hcoprime : Nat.Coprime (2 ^ 64) size.toNat :=
          Nat.Coprime.pow_left 64 (Nat.coprime_two_left.mpr (Nat.odd_iff.mpr hodd))
        have hfactor := hcoprime.dvd_of_dvd_mul_right hwrapped
        have hzero : page.toNat - 1 = 0 := Nat.eq_zero_of_dvd_of_lt hfactor (by omega)
        rw [hzero] at hpages
        omega
      · rw [paginate_eq (hlength.trans (by decide)), hone, if_neg]
        · exact fun h => by cases h
        · rintro ⟨hin, hwrap⟩
          omega

end Pagination
/-! ### Collecting -/

namespace DomainServices

variable {Domain : Type} (S : DomainServices Domain) (domainIDs : List Bytes) (query : String)
  (filter : CSearchFilter)

/-- The known domains: each id is the address of a domain that is found under it, and none comes twice. A vector has
room for fewer than `2 ^ 58` ids. -/
structure KnownDomains : Prop where
  nodup : domainIDs.Nodup
  found : ∀ id ∈ domainIDs, ∃ domain, S.findByID id = some domain ∧ S.getAddress domain = id
  room : domainIDs.length + 1 < 2 ^ 58

/-- The query is the id of the domain. -/
def NamedBy (domain : Domain) : Prop :=
  S.isDomainIDValid (S.stringToBytes query) = true ∧ S.findByID (S.stringToBytes query) = some domain

/-- The domain is known, or named by the query, and matches. -/
def Matching (domain : Domain) : Prop :=
  (S.NamedBy query domain ∨ ∃ id ∈ domainIDs, S.findByID id = some domain) ∧
    S.matchesDomainFilter (S.createDomainDescription domain) query filter = true

/-- Each matching domain is listed once, the one named by the query first. -/
structure ListsMatching (domains : List Domain) : Prop where
  once : domains.Nodup
  mem_iff : ∀ domain, domain ∈ domains ↔ S.Matching domainIDs query filter domain
  first : ∀ domain, S.NamedBy query domain → S.Matching domainIDs query filter domain → domains.head? = some domain

/-- A known domain matches and is named by a query that is not its address. -/
def NamedShort : Prop :=
  ∃ domain, S.NamedBy query domain ∧ S.Matching domainIDs query filter domain ∧
    S.getAddress domain ∈ domainIDs ∧ S.getAddress domain ≠ S.stringToBytes query

variable {S domainIDs query filter} {id : Bytes} {domain : Domain}

theorem findByID_eq_some : S.findByID id = some domain ↔
    S.isDomainIDValid (StateDomainManager.paddedID id) = true ∧
      S.findNodeByFullID (StateDomainManager.paddedID id) = some domain := by
  rw [findByID]
  cases hvalid : S.isDomainIDValid (StateDomainManager.paddedID id) with
  | false => simp
  | true =>
      cases hnode : S.findNodeByFullID (StateDomainManager.paddedID id) with
      | none => simp
      | some found => simp [S.address_found hnode, hvalid]

theorem address_of_found (hfound : S.findByID id = some domain) : S.getAddress domain = StateDomainManager.paddedID id :=
  S.address_found (findByID_eq_some.mp hfound).2

theorem findMatching_eq_some : S.findMatching query filter id = some domain ↔ S.findByID id = some domain ∧
    S.matchesDomainFilter (S.createDomainDescription domain) query filter = true := by
  rw [findMatching, Option.filter_eq_some_iff]

variable (hknown : S.KnownDomains domainIDs)
include hknown

theorem address_of_known (hid : id ∈ domainIDs) (hfound : S.findByID id = some domain) :
    S.getAddress domain = id := by
  obtain ⟨domain', hfound', haddress⟩ := hknown.found id hid
  rw [← haddress, Option.some.inj (hfound.symm.trans hfound')]

/-- The scan lists the matches among the known domains, but for that whose address is the query. -/
theorem mem_scan : domain ∈ (domainIDs.filter (· ≠ S.stringToBytes query)).filterMap
      (S.findMatching query filter) ↔
    S.getAddress domain ∈ domainIDs ∧ S.getAddress domain ≠ S.stringToBytes query ∧
      S.findByID (S.getAddress domain) = some domain ∧
      S.matchesDomainFilter (S.createDomainDescription domain) query filter = true := by
  simp only [List.mem_filterMap, List.mem_filter, decide_eq_true_eq, findMatching_eq_some]
  constructor
  · rintro ⟨id, ⟨hid, hother⟩, hfound, hmatches⟩
    obtain rfl := address_of_known hknown hid hfound
    exact ⟨hid, hother, hfound, hmatches⟩
  · rintro ⟨hid, hother, hfound, hmatches⟩
    exact ⟨_, ⟨hid, hother⟩, hfound, hmatches⟩

theorem nodup_scan : ((domainIDs.filter (· ≠ S.stringToBytes query)).filterMap
    (S.findMatching query filter)).Nodup := by
  rw [List.Nodup, List.pairwise_filterMap]
  refine (hknown.nodup.filter _).imp_of_mem ?_
  rintro id id' hid hid' hne domain hfound _ hfound' rfl
  apply hne
  rw [← address_of_known hknown (List.mem_of_mem_filter hid) (findMatching_eq_some.mp hfound).1,
    address_of_known hknown (List.mem_of_mem_filter hid') (findMatching_eq_some.mp hfound').1]

omit hknown in
theorem mem_exact : domain ∈ (if S.isDomainIDValid (S.stringToBytes query) then
      (S.findMatching query filter (S.stringToBytes query)).toList else []) ↔
    S.NamedBy query domain ∧ S.matchesDomainFilter (S.createDomainDescription domain) query filter = true := by
  cases hvalid : S.isDomainIDValid (S.stringToBytes query) with
  | false => simp [NamedBy, hvalid]
  | true => simp [NamedBy, hvalid, findMatching_eq_some]

/-- The matching domains are collected, each at least once. -/
theorem mem_matchingDomains : domain ∈ S.matchingDomains domainIDs query filter ↔
    S.Matching domainIDs query filter domain := by
  rw [matchingDomains, List.mem_append, mem_exact, mem_scan hknown, Matching]
  constructor
  · rintro (⟨hnamed, hmatches⟩ | ⟨hid, -, hfound, hmatches⟩)
    · exact ⟨.inl hnamed, hmatches⟩
    · exact ⟨.inr ⟨_, hid, hfound⟩, hmatches⟩
  · rintro ⟨hnamed | ⟨id, hid, hfound⟩, hmatches⟩
    · exact .inl ⟨hnamed, hmatches⟩
    · have haddress := address_of_known hknown hid hfound
      by_cases hquery : id = S.stringToBytes query
      · -- the id that the scan skips is valid, as its domain is found
        subst hquery
        have hwhole : StateDomainManager.paddedID (S.stringToBytes query) = S.stringToBytes query :=
          (address_of_found hfound).symm.trans haddress
        exact .inl ⟨⟨hwhole ▸ (findByID_eq_some.mp hfound).1, hfound⟩, hmatches⟩
      · subst haddress
        exact .inr ⟨hid, hquery, hfound, hmatches⟩

/-- They are collected once unless one is named by less than its address. -/
theorem nodup_matchingDomains_iff : (S.matchingDomains domainIDs query filter).Nodup ↔
    ¬S.NamedShort domainIDs query filter := by
  rw [matchingDomains, List.nodup_append']
  constructor
  · rintro ⟨-, -, hdisjoint⟩ ⟨domain, hnamed, hmatching, hid, hshort⟩
    refine hdisjoint (mem_exact.mpr ⟨hnamed, hmatching.2⟩) ((mem_scan hknown).mpr ⟨hid, hshort, ?_, hmatching.2⟩)
    obtain ⟨domain', hfound', haddress⟩ := hknown.found _ hid
    have hnode := (findByID_eq_some.mp hnamed.2).2
    have hnode' := (findByID_eq_some.mp hfound').2
    rw [← address_of_found hnamed.2] at hnode
    rw [← address_of_found hfound', haddress, hnode] at hnode'
    rw [hfound', Option.some.inj hnode']
  · intro hshort
    refine ⟨?_, nodup_scan hknown, ?_⟩
    · split_ifs
      · cases S.findMatching query filter (S.stringToBytes query) <;> simp
      · exact List.nodup_nil
    · intro domain hexact hscan
      obtain ⟨hnamed, hmatches⟩ := mem_exact.mp hexact
      obtain ⟨hid, hother, -, -⟩ := (mem_scan hknown).mp hscan
      exact hshort ⟨domain, hnamed, ⟨.inl hnamed, hmatches⟩, hid, hother⟩

theorem listsMatching_iff : S.ListsMatching domainIDs query filter (S.matchingDomains domainIDs query filter) ↔
    ¬S.NamedShort domainIDs query filter := by
  refine ⟨fun hlists => (nodup_matchingDomains_iff hknown).mp hlists.once, fun hshort =>
    ⟨(nodup_matchingDomains_iff hknown).mpr hshort, fun _ => mem_matchingDomains hknown, ?_⟩⟩
  intro domain hnamed hmatching
  have hexact : S.findMatching query filter (S.stringToBytes query) = some domain :=
    findMatching_eq_some.mpr ⟨hnamed.2, hmatching.2⟩
  rw [matchingDomains, if_pos hnamed.1, hexact]
  rfl

theorem length_matchingDomains_lt : ((S.matchingDomains domainIDs query filter).map
    S.createDomainDescription).length < 2 ^ 58 := by
  rw [List.length_map, matchingDomains, List.length_append]
  have hexact : (if S.isDomainIDValid (S.stringToBytes query) then
      (S.findMatching query filter (S.stringToBytes query)).toList else []).length ≤ 1 := by
    split_ifs
    · cases S.findMatching query filter (S.stringToBytes query) <;> simp
    · exact Nat.zero_le 1
  have hscan : ((domainIDs.filter (· ≠ S.stringToBytes query)).filterMap
      (S.findMatching query filter)).length ≤ domainIDs.length :=
    (List.length_filterMap_le _ _).trans (List.length_filter_le _ _)
  have := hknown.room
  omega

/-- Nothing else lists the matching domains with as many entries, if one is collected twice. -/
theorem nodup_of_listsMatching {domains : List Domain} (hlists : S.ListsMatching domainIDs query filter domains)
    (hlength : (S.matchingDomains domainIDs query filter).length = domains.length) :
    ¬S.NamedShort domainIDs query filter := by
  have hsubset : domains ⊆ S.matchingDomains domainIDs query filter := by
    intro domain hmem
    exact (mem_matchingDomains hknown).mpr ((hlists.mem_iff domain).mp hmem)
  have hperm := (List.subperm_of_subset hlists.once hsubset).perm_of_length_le hlength.le
  exact (nodup_matchingDomains_iff hknown).mp (hperm.nodup_iff.mp hlists.once)

/-- How many domains are collected, where none is collected twice. -/
theorem length_matchingDomains_iff (hshort : ¬S.NamedShort domainIDs query filter) {odd : Prop} :
    ((S.matchingDomains domainIDs query filter).length = 0 ∨
      (S.matchingDomains domainIDs query filter).length = 1 ∧ odd) ↔
    (∀ domain, ¬S.Matching domainIDs query filter domain) ∨ odd ∧ ∀ domain domain',
      S.Matching domainIDs query filter domain → S.Matching domainIDs query filter domain' → domain = domain' := by
  have honce := (nodup_matchingDomains_iff hknown).mpr hshort
  simp only [← mem_matchingDomains hknown]
  generalize S.matchingDomains domainIDs query filter = collected at honce
  rcases collected with _ | ⟨a, _ | ⟨b, rest⟩⟩
  · simp
  · simp
  · have hne : a ≠ b := fun heq => (List.nodup_cons.mp honce).1 (heq ▸ List.mem_cons_self)
    refine iff_of_false (by simp) ?_
    rintro (hnone | ⟨-, hsame⟩)
    · exact hnone a List.mem_cons_self
    · exact hne (hsame a b List.mem_cons_self (List.mem_cons_of_mem a List.mem_cons_self))

variable {size : UInt64}

/-- Exactly when nothing that matches is named by less than its address, and pages far behind the list start behind it
too: pages of one entry, or nothing that matches, or one domain and an odd size. -/
theorem collected_shows_iff (hsize : size ≠ 0) :
    (∃ domains, S.ListsMatching domainIDs query filter domains ∧
      ShowsPages (domains.map S.createDomainDescription) size
        (paginate ((S.matchingDomains domainIDs query filter).map S.createDomainDescription) size)) ↔
    ¬S.NamedShort domainIDs query filter ∧
      (size = 1 ∨ (∀ domain, ¬S.Matching domainIDs query filter domain) ∨
        (size.toNat % 2 = 1 ∧ ∀ domain domain', S.Matching domainIDs query filter domain →
          S.Matching domainIDs query filter domain' → domain = domain')) := by
  have hroom : ((S.matchingDomains domainIDs query filter).map S.createDomainDescription).length < 2 ^ 58 :=
    length_matchingDomains_lt hknown
  have hpages := showsPages_iff hsize hroom
  rw [List.length_map] at hpages
  constructor
  · rintro ⟨domains, hlists, hshows⟩
    have hsubset : domains ⊆ S.matchingDomains domainIDs query filter :=
      fun domain hmem => (mem_matchingDomains hknown).mpr ((hlists.mem_iff domain).mp hmem)
    have hfewer : (domains.map S.createDomainDescription).length < 2 ^ 58 := by
      have := (List.subperm_of_subset hlists.once hsubset).length_le
      rw [List.length_map] at hroom ⊢
      omega
    have hsame := eq_of_showsPages hsize hfewer hroom hshows
    have hshort := nodup_of_listsMatching hknown hlists (by simpa using congrArg List.length hsame)
    rw [← hsame] at hshows
    refine ⟨hshort, ?_⟩
    rw [or_congr_right (length_matchingDomains_iff hknown hshort)] at hpages
    exact hpages.mp hshows
  · rintro ⟨hshort, hsmall⟩
    rw [or_congr_right (length_matchingDomains_iff hknown hshort)] at hpages
    exact ⟨_, (listsMatching_iff hknown).mpr hshort, hpages.mpr hsmall⟩

/-- A page whose start is a word is the page of the matching domains. -/
theorem collected_page (hsize : size ≠ 0) {page : UInt64} (hpage : page ≠ 0)
    (hstart : (page.toNat - 1) * size.toNat < 2 ^ 64) :
    paginate ((S.matchingDomains domainIDs query filter).map S.createDomainDescription) size page =
      .results (Paging.page ((S.matchingDomains domainIDs query filter).map S.createDomainDescription) size.toNat
        (page.toNat - 1)) (.ofNat (S.matchingDomains domainIDs query filter).length) page size := by
  rw [paginate_of_unwrapped hsize (length_matchingDomains_lt hknown) hpage hstart, List.length_map]

omit hknown in
/-- Domain search, in pages of any size: when it loses and repeats nothing over all pages that can be asked for, and
what the pages are whose start does not wrap around. -/
theorem searchDomains_paged {DB : Type} {T : StateTrie DB} {manager : StateDomainManager DB}
    (hknown : S.KnownDomains (manager.getKnownDomainIDs T true).1) (hsize : size ≠ 0) :
    ((∃ domains, S.ListsMatching (manager.getKnownDomainIDs T true).1 query filter domains ∧
      ShowsPages (domains.map S.createDomainDescription) size (S.searchDomains T manager query filter size)) ↔
    ¬S.NamedShort (manager.getKnownDomainIDs T true).1 query filter ∧
      (size = 1 ∨ (∀ domain, ¬S.Matching (manager.getKnownDomainIDs T true).1 query filter domain) ∨
        (size.toNat % 2 = 1 ∧ ∀ domain domain', S.Matching (manager.getKnownDomainIDs T true).1 query filter domain →
          S.Matching (manager.getKnownDomainIDs T true).1 query filter domain' → domain = domain'))) ∧
    (¬S.NamedShort (manager.getKnownDomainIDs T true).1 query filter →
      ∃ domains, S.ListsMatching (manager.getKnownDomainIDs T true).1 query filter domains ∧
        ∀ page : UInt64, page ≠ 0 → (page.toNat - 1) * size.toNat < 2 ^ 64 →
          S.searchDomains T manager query filter size page =
            .results (Paging.page (domains.map S.createDomainDescription) size.toNat (page.toNat - 1))
              (.ofNat domains.length) page size) := by
  refine ⟨collected_shows_iff hknown hsize, fun hshort => ⟨_, (listsMatching_iff hknown).mpr hshort, ?_⟩⟩
  exact fun page hpage hstart => collected_page hknown hsize hpage hstart

end DomainServices

/-! ### Two domains -/

section Sample

/-- Domains that are their addresses of 34 bytes. -/
def searchedServices : DomainServices Bytes where
  stringToBytes s := s.toList.map fun c => UInt8.ofNat c.toNat
  isDomainIDValid id := id.length = 34
  findNodeByFullID id := if id.length = 34 then some id else none
  getAddress id := id
  address_found := by
    intro id domain hfound
    split at hfound
    · exact (Option.some.inj hfound).symm
    · cases hfound
  createDomainDescription id :=
    { getDomain := String.ofList (id.map fun b => Char.ofNat b.toNat), getTxCountTxt := "0",
      getLockedBalanceTxt := "0", getBalanceTxt := "0", getTxTotalReceivedTxt := "0", getTxTotalSentTxt := "0",
      getPerspective := "", getPerspectivesCount := 1, getIdentityToken := none }
  trim s := s
  findStringIC s wanted := decide (wanted.toList <:+: s.toList)
  attoToGNCStr _ := "0"

def searchedTrie : StateTrie Unit where
  addNodeExt _ _ _ := (false, ())
  getKnownNodeIDs _ := []

def searchedManager : StateDomainManager Unit where
  mCurrentDB := ()
  mKnownStateDomainIDs := [List.replicate 34 49, List.replicate 34 50]

def searchedFilter : CSearchFilter := { domains := true, addresses := false, arbitraryFlags := [] }

theorem knownDomains_searched : searchedServices.KnownDomains (searchedManager.getKnownDomainIDs searchedTrie true).1 where
  nodup := by decide
  found := by
    intro id hid
    have hlength : id.length = 34 := by
      rcases List.mem_cons.mp hid with rfl | hid
      · rfl
      · rw [List.mem_singleton.mp hid]
        rfl
    refine ⟨id, DomainServices.findByID_eq_some.mpr ?_, rfl⟩
    have hwhole : StateDomainManager.paddedID id = id := by simp [StateDomainManager.paddedID, hlength]
    rw [hwhole]
    exact ⟨decide_eq_true hlength, if_pos hlength⟩
  room := by decide

/-- Pages of one entry show the domains that match "0". -/
theorem searchDomains_paged_single : ∃ domains,
    searchedServices.ListsMatching (searchedManager.getKnownDomainIDs searchedTrie true).1 "0"
        searchedFilter domains ∧
      ShowsPages (domains.map searchedServices.createDomainDescription) 1
        (searchedServices.searchDomains searchedTrie searchedManager "0" searchedFilter 1) := by
  refine (DomainServices.searchDomains_paged knownDomains_searched (by decide)).1.mpr ⟨?_, .inl rfl⟩
  rintro ⟨_, ⟨hvalid, -⟩, -⟩
  exact absurd hvalid (by decide)

/-- Both domains match "0", and the page before the first, of the largest size, leaves their list. -/
theorem searchDomains_leaves_list : searchedServices.KnownDomains (searchedManager.getKnownDomainIDs searchedTrie true).1 ∧
    ¬∃ domains, searchedServices.ListsMatching (searchedManager.getKnownDomainIDs searchedTrie true).1 "0"
        searchedFilter domains ∧
      ShowsPages (domains.map searchedServices.createDomainDescription) 18446744073709551615
        (searchedServices.searchDomains searchedTrie searchedManager "0" searchedFilter 18446744073709551615) := by
  refine ⟨knownDomains_searched, ?_⟩
  rintro ⟨domains, -, hshows⟩
  exact hshows.inRange 0 rfl

end Sample
end Gridnet
