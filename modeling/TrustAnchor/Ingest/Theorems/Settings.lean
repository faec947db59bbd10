import TrustAnchor.Ingest.Lemmas.Readings
import TrustAnchor.Ingest.Symbolic

/-!
# A change of the settings

Which services are admitted is set by the operator. A list that is read is judged under the settings of
the cycle; one whose checksum confirms it as unchanged is not read.
-/

namespace TrustAnchor.Ingest

open Lib Tsl Trust

variable {rt : Runtime} {cfg : Config} {cy : Cycle} {prev : Option Snapshot} {boot : Bootstrap}
  {f f' : Fetcher} {next : Snapshot} {code : String} {g : Fetcher} {pt : Territory}

/-- In the cycle the list of the territory is asked for, with this answer. -/
def Asked (rt : Runtime) (cfg : Config) (cy : Cycle) (prev : Option Snapshot) (boot : Bootstrap) (f : Fetcher)
    (code : String) (answer : Except Err Raw) : Prop :=
  ∃ res f₁ g lp, ingestLOTL rt cfg cy prev boot f = (.ok res, f₁) ∧
    (code, g) ∈ loopFetchers rt cfg cy res.pointers prev (expandTerritories cfg.territories res.pointers) f₁ ∧
    res.pointers.pointerFor code = .ok lp ∧
    answer = (fetchTL rt cfg cy code lp (prev.bind (·.territory code)) g).1

/-- The published checksum confirms the entry that is held, and the download is left out. -/
def ChecksumConfirms (rt : Runtime) (cfg : Config) (cy : Cycle) (prev : Option Snapshot) (boot : Bootstrap)
    (f : Fetcher) (pt : Territory) : Prop :=
  prev.bind (·.territory pt.code) = some pt ∧ ∃ e, Asked rt cfg cy prev boot f pt.code (.error e) ∧ e.unchanged = true

/-- The list that is published for the territory: the downloaded one or, where the download is left out, the one with
the published checksum. -/
def PublishedList (rt : Runtime) (cfg : Config) (cy : Cycle) (prev : Option Snapshot) (boot : Bootstrap) (f : Fetcher)
    (code : String) (tl : TrustedList) : Prop :=
  ∃ bytes, signedList rt bytes = some tl ∧
    ((∃ raw, Asked rt cfg cy prev boot f code (.ok raw) ∧ raw.bytes = bytes) ∨
      ∃ pt, pt.code = code ∧ ChecksumConfirms rt cfg cy prev boot f pt ∧ pt.sourceDigest = rt.sha256hex bytes)

theorem Asked.eq {answer answer' : Except Err Raw} (h : Asked rt cfg cy prev boot f code answer)
    (h' : Asked rt cfg cy prev boot f code answer') : answer = answer' := by
  obtain ⟨res, f₁, g, lp, hres, hg, hlp, rfl⟩ := h
  obtain ⟨res', f₁', g', lp', hres', hg', hlp', rfl⟩ := h'
  rw [hres] at hres'
  cases hres'
  have hnodup : ((loopFetchers rt cfg cy res.pointers prev (expandTerritories cfg.territories res.pointers)
      f₁).map Prod.fst).Nodup := by
    rw [loopFetchers_map_fst]
    exact expandTerritories_nodup _ _
  rw [eq_of_mem_keyed hnodup hg hg', Except.ok.inj (hlp.symm.trans hlp')]

/-- The list that the entry was read off is the published one, if the checksum confirms the entry. -/
theorem PublishedList.eq_of_readUnder (hsha : Function.Injective rt.sha256) {old : Config} {tl tl' : TrustedList}
    (hpt : ChecksumConfirms rt cfg cy prev boot f pt) (hread : ReadUnder rt old tl pt)
    (h : PublishedList rt cfg cy prev boot f pt.code tl') : tl' = tl := by
  obtain ⟨bytes, htl', ⟨raw, hraw, -⟩ | ⟨pt', hcode, ⟨hpt', -⟩, hdigest⟩⟩ := h
  · obtain ⟨-, e, herr, -⟩ := hpt
    cases hraw.eq herr
  · rw [hcode, hpt.1] at hpt'
    cases hpt'
    obtain ⟨raw, hraw, htl⟩ := hread.list
    obtain rfl : bytes = raw := hsha (hexEncode_injective (hdigest.symm.trans hraw))
    exact Option.some.inj (htl'.symm.trans htl)

/-! ## Entries of the cycle -/

theorem readTL_extracted {ps : PointerSet} {t : Territory} (h : readTL rt cfg cy ps prev code g = some t) :
    ∃ lp raw tl, ps.pointerFor code = .ok lp ∧
      (fetchTL rt cfg cy code lp (prev.bind (·.territory code)) g).1 = .ok raw ∧ signedList rt raw.bytes = some tl ∧
      ∀ a ∈ t.anchors, ExtractedBy rt cfg code tl a := by
  obtain ⟨lp, raw, hlp, hraw, hread⟩ := readTL_eq_some h
  obtain ⟨tl, anchors, warnings, htl, hextract, rfl⟩ := readTerritory_ok hread
  obtain ⟨⟨signers, verified, signer, -, hv, hparse⟩, -, -⟩ := NationalTLSource.verify_ok htl
  refine ⟨lp, raw, tl, hlp, hraw, signedList_of_verify hv hparse, fun a ha => ?_⟩
  obtain ⟨a₀, ha₀, rfl⟩ := List.mem_map.1 ha
  exact ⟨anchors, warnings, hextract, a₀, ha₀, rfl⟩

/-- A confirmed entry is taken over as it is. -/
theorem ChecksumConfirms.mem_territories (hpt : ChecksumConfirms rt cfg cy prev boot f pt)
    (h : refresh rt cfg cy prev boot f = (.ok next, f')) :
    ∃ t ∈ next.territories, t.code = pt.code ∧ t.carriedOver = false ∧ t.anchors = pt.anchors := by
  obtain ⟨hheld, e, ⟨res, f₁, g, lp, hres, hg, hlp, herr⟩, hunchanged⟩ := hpt
  obtain ⟨p, rfl, hlookup⟩ := Option.bind_eq_some_iff.1 hheld
  have hok : (ingestTerritory rt cfg cy res.pointers pt.code (some p) g).1 = .ok { pt with carriedOver := false } := by
    rw [ingestTerritory_fst, fetchTerritory, hlp, Fallible.ofExcept_ok_bind_run, Fallible.attempt_bind_run, ← herr]
    simp [reuseUnchanged, hlookup, hunchanged]
  obtain ⟨res', f₁', hres', hts⟩ := refresh_territories h
  rw [hres] at hres'
  cases hres'
  refine ⟨_, hts ▸ List.mem_map.2 ⟨(pt.code, g), hg, rfl⟩, by simp, ?_, ?_⟩
  · rw [heldEntry_carriedOver, hok]
    rfl
  · rw [hok, entryOf]
    exact heldEntry_anchors (List.mem_of_find?_eq_some hlookup) rfl rfl

/-- Where the anchors of an entry that is not carried over are from: a list that is downloaded in the cycle, or the
confirmed entry. -/
theorem mem_territories_cases {t : Territory} {a : Anchor} (h : refresh rt cfg cy prev boot f = (.ok next, f'))
    (ht : t ∈ next.territories) (hcarried : t.carriedOver = false) (ha : a ∈ t.anchors) :
    (∃ tl, PublishedList rt cfg cy prev boot f t.code tl ∧ ExtractedBy rt cfg t.code tl a) ∨
      ∃ pt, pt.code = t.code ∧ ChecksumConfirms rt cfg cy prev boot f pt ∧ a ∈ pt.anchors := by
  obtain ⟨res, f₁, hres, hts⟩ := refresh_territories h
  rw [hts] at ht
  obtain ⟨⟨code, g⟩, hg, rfl⟩ := List.mem_map.1 ht
  rw [heldEntry_carriedOver] at hcarried
  replace ha := mem_of_mem_heldEntry ha
  rw [heldEntry_code, entryOf_ingestTerritory_code]
  rw [ingestTerritory_fst] at hcarried ha
  obtain ⟨t, hread, hfetch⟩ | ⟨-, ⟨e, hfetch⟩ | ⟨lp, e, pt, hlp, herr, hunchanged, hheld, hfetch⟩⟩ :=
    fetchTerritory_cases rt cfg cy res.pointers code prev g <;> rw [hfetch] at hcarried ha
  · obtain ⟨lp, raw, tl, hlp, hraw, htl, hextracted⟩ := readTL_extracted hread
    exact .inl ⟨tl, ⟨raw.bytes, htl, .inl ⟨raw, ⟨res, f₁, g, lp, hres, hg, hlp, hraw.symm⟩, rfl⟩⟩, hextracted a ha⟩
  · simp only at hcarried ha
    cases hcarry : carryOver prev code e with
    | error e' =>
        rw [hcarry] at ha
        cases ha
    | ok t =>
        obtain ⟨p, pt, -, -, -, rfl⟩ := carryOver_ok hcarry
        rw [hcarry] at hcarried
        cases hcarried
  · obtain ⟨p, rfl, hlookup⟩ := Option.bind_eq_some_iff.1 hheld
    obtain rfl : pt.code = code := by simpa using List.find?_some hlookup
    exact .inr ⟨pt, rfl, ⟨hheld, e, ⟨res, f₁, g, lp, hres, hg, hlp, herr.symm⟩, hunchanged⟩, ha⟩

namespace Symbolic

/-- The list offers `K` as CA/QC and, withdrawn, as EAA/Q. -/
def twoStatuses : World where
  documents :=
    [⟨ofText "L", ofText "B", lotl 1 [] ["B"] [pointer "EE" "" "https://ee/tl.xml" ["S"]]⟩,
      ⟨ofText "1", ofText "S",
        { national "EE" 1 (some 100) [] with
          providerList := some (provider
            [service "" serviceTypeCAQC "granted" ["K"] [],
              service "" (svctypeBase ++ "EAA/Q") "withdrawn" ["K"] []]) }⟩]
  urls := growing.urls

/-- The operator asks for these types. -/
def ofTypes (types : List String) : Config := { config ["EE"] .auto 0 with acceptedServiceTypes := types }

/-- A process that asks for CA/QC, and a second one that asks for the types, on its store; the list itself stays the
same. -/
def reconfigured (w : World) (types : List String) (pages : List (String × Bytes)) : Service :=
  (Service.empty 100).run w.runtime
    [(config ["EE"] .auto 0, install ["B"]), (config ["EE"] .auto 0, refresh 5 (growingPages "1")),
      (ofTypes types, .restart {}), (ofTypes types, refresh 6 pages)]

/-- What is served for territories that are not carried over. -/
def current (m : Service) : List Anchor :=
  (m.active.toList.flatMap fun s => s.territories.filter fun t => !t.carriedOver).flatMap Territory.anchors

end Symbolic

end TrustAnchor.Ingest
