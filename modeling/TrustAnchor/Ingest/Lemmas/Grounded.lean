import TrustAnchor.Ingest.Lemmas.Rotation
import TrustAnchor.Ingest.Lemmas.WellFormed

/-!
# What a snapshot was read from

In auto mode and under one configuration, everything upstream in a snapshot is what a download gives: for
the list of the lists and for each territory there are bytes with the stored digest that the stored
fields are read from. Entries that are skipped or carried over keep this, since they keep both.
-/

namespace TrustAnchor.Ingest

open Lib Tsl Trust

variable {rt : Runtime} {cfg : Config} {cy : Cycle} {prev : Option Snapshot} {boot : Bootstrap}
  {p next : Snapshot} {t pt : Territory} {code : String} {f f' : Fetcher} {raw : Raw}

/-! ## Downloads -/

theorem EULOTLSource.fetch_digest {s : EULOTLSource} {net : Network} {last : Option Raw}
    (h : s.fetch rt net last f = (.ok raw, f')) : raw.digest = rt.sha256hex raw.bytes := by
  unfold EULOTLSource.fetch at h
  obtain ⟨-, f₁, -, h⟩ := Fallible.bind_eq_ok.1 h
  obtain ⟨unchanged, f₂, -, h⟩ := Fallible.bind_eq_ok.1 h
  split at h
  · cases h
  · obtain ⟨answer, f₃, -, h⟩ := Fallible.bind_eq_ok.1 h
    obtain ⟨bytes, f₄, -, h⟩ := Fallible.bind_eq_ok.1 h
    cases h
    rfl

theorem NationalTLSource.fetch_digest {s : NationalTLSource} {net : Network} {last : Option Raw}
    (h : (s.fetch rt net last f).1 = .ok raw) : raw.digest = rt.sha256hex raw.bytes := by
  have h : s.fetch rt net last f = (.ok raw, (s.fetch rt net last f).2) := Prod.ext h rfl
  unfold NationalTLSource.fetch at h
  obtain ⟨-, f₁, -, h⟩ := Fallible.bind_eq_ok.1 h
  obtain ⟨-, f₂, -, h⟩ := Fallible.bind_eq_ok.1 h
  obtain ⟨unchanged, f₃, -, h⟩ := Fallible.bind_eq_ok.1 h
  split at h
  · cases h
  · obtain ⟨bytes, f₄, -, h⟩ := Fallible.bind_eq_ok.1 h
    cases h
    rfl

theorem Raw.eq_of_digest (hsha : Function.Injective rt.sha256) {raw : Raw} {bytes : Bytes}
    (hraw : raw.digest = rt.sha256hex raw.bytes) (h : raw.digest = rt.sha256hex bytes) :
    raw = ⟨bytes, rt.sha256hex bytes⟩ := by
  have hbytes : raw.bytes = bytes := hsha (hexEncode_injective (hraw.symm.trans h))
  cases raw
  simp_all

/-- The list that the signed part of a document holds. -/
def signedList (rt : Runtime) (raw : Bytes) : Option TrustedList :=
  match rt.verifiedRoot raw with
  | .error _ => none
  | .ok verified => (parse rt verified).toOption

theorem signedList_of_verify {clock : Time} {raw : Bytes} {signers : List Certificate} {verified : Bytes}
    {signer : Certificate} {tl : TrustedList} (hv : Tsl.verify rt clock raw signers = .ok (verified, signer))
    (htl : parse rt verified = .ok tl) : signedList rt raw = some tl := by
  simp [signedList, (verifyWith_eq_ok.1 hv).2.2.2.2, htl, Except.toOption]

/-! ## The list of the lists -/

/-- The result is read off bytes with its digest, and every pivot that they advertise is processed. -/
def GroundedLOTL (rt : Runtime) (res : LOTLResult) : Prop :=
  ∃ raw v, signedList rt raw = some v.list ∧ v.signers ≠ [] ∧ Parsed rt v.signers ∧
    (∀ ref ∈ advertisedPivots rt raw, ref.seq ≤ v.pivotSeq) ∧
    res = freshLOTL rt ⟨raw, rt.sha256hex raw⟩ v

theorem EULOTLSource.verify_pivots {s : EULOTLSource} {clock : Time} {net : Network} {pinned : List Bytes}
    {v : LOTLState} (h : (s.verify rt clock net raw pinned f).1 = .ok v) :
    ∀ ref ∈ advertisedPivots rt raw.bytes, ref.seq ≤ v.pivotSeq := by
  intro ref href
  obtain ⟨-, signers, -, ⟨verified, signer, -, hacc⟩ | ⟨verr, -, hacc⟩⟩ := verify_eq_ok.1 h
  · obtain ⟨-, -, -, hseq⟩ := acceptDirect_eq_ok.1 hacc
    have hle := le_maxPivot (advertisedPivots_sorted rt raw.bytes) href
    omega
  · exact (walk_le (acceptWalked_eq_ok.1 hacc).1).2 ref href

theorem ingestLOTL_grounded (hprev : ∀ p ∈ prev, GroundedLOTL rt (carriedLOTL p)) {res : LOTLResult}
    (h : ingestLOTL rt cfg cy prev boot f = (.ok res, f')) : GroundedLOTL rt res := by
  obtain ⟨p, e, g, rfl, -, rfl⟩ | ⟨raw, g, pinned, pivotSeq, v, hfetch, -, hv, rfl⟩ := ingestLOTL_ok h
  · exact hprev p rfl
  · obtain ⟨signers, verified, signer, -, -, hparsed, hverify, hlist⟩ := EULOTLSource.verify_ok hv
    refine ⟨raw.bytes, v, signedList_of_verify hverify hlist, (verifyWith_eq_ok.1 hverify).1, hparsed,
      EULOTLSource.verify_pivots hv, ?_⟩
    rw [← EULOTLSource.fetch_digest hfetch]

/-- Bytes that were accepted before are accepted again with the same state: under the set of that state,
or not at all. -/
theorem EULOTLSource.verify_again {s : EULOTLSource} {clock : Time} {net : Network} {v v' : LOTLState}
    (hlist : signedList rt raw.bytes = some v.list) (hparsed : Parsed rt v.signers)
    (hpivots : ∀ ref ∈ advertisedPivots rt raw.bytes, ref.seq ≤ v.pivotSeq) (hseq : s.pivotSeq = v.pivotSeq)
    (h : (s.verify rt clock net raw (certsDER v.signers) f).1 = .ok v') : v' = v := by
  obtain ⟨-, signers, hsigners, hacc⟩ := verify_eq_ok.1 h
  rw [parseDERCerts_certsDER hparsed] at hsigners
  cases hsigners
  obtain ⟨verified, signer, hv, hacc⟩ | ⟨verr, hv, hacc⟩ := hacc
  · obtain ⟨hchecked, -, hsame, hpivotSeq⟩ := acceptDirect_eq_ok.1 hacc
    have hlist' := signedList_of_verify hv (checkVerified_eq_ok.1 hchecked).1
    rw [hlist] at hlist'
    have hmax := maxPivot_le hpivots
    obtain ⟨list, signers, pivotSeq⟩ := v
    obtain ⟨list', signers', pivotSeq'⟩ := v'
    simp only [Option.some.injEq, LOTLState.mk.injEq] at *
    exact ⟨hlist'.symm, hsame, by omega⟩
  · -- no pivot is new, so the walk ends in the set that just failed
    obtain ⟨hwalk, verified, signer, hv', -⟩ := acceptWalked_eq_ok.1 hacc
    rw [hseq, walk_of_processed hpivots] at hwalk
    obtain ⟨hsame, -⟩ := Prod.mk.inj (Except.ok.inj hwalk)
    rw [← hsame, hv] at hv'
    cases hv'

/-- A cycle that skips the list of the lists, or downloads bytes with the stored digest, finds what the
previous one had. -/
theorem ingestLOTL_again (hsha : Function.Injective rt.sha256) (hp : GroundedLOTL rt (carriedLOTL p))
    {res : LOTLResult} (h : ingestLOTL rt cfg cy (some p) boot f = (.ok res, f'))
    (hbytes : ∀ raw g, fetchLOTL rt cfg cy (some p) f = (.ok raw, g) → raw.digest = p.lotlDigest) :
    res = carriedLOTL p := by
  obtain ⟨q, e, g, hq, -, rfl⟩ | ⟨raw, g, pinned, pivotSeq, v', hfetch, hpinned, hv', rfl⟩ := ingestLOTL_ok h
  · cases hq
    rfl
  · obtain ⟨bytes, v, hlist, hne, hparsed, hpivots, hres⟩ := hp
    have hdigest : p.lotlDigest = rt.sha256hex bytes := congrArg LOTLResult.digest hres
    have hsigners : p.lotlSignersDER = certsDER v.signers := congrArg LOTLResult.signersDER hres
    have hseq : p.lotlPivotSeq = v.pivotSeq := congrArg LOTLResult.pivotSeq hres
    obtain rfl := Raw.eq_of_digest hsha (EULOTLSource.fetch_digest hfetch)
      ((hbytes raw g hfetch).trans hdigest)
    have hheld : p.lotlSignersDER ≠ [] := by simpa [hsigners, certsDER] using hne
    have hpicked : pinnedSigners rt (some p) boot = .ok (p.lotlSignersDER, p.lotlPivotSeq) := by
      rw [pinnedSigners, Option.filter_some_pos (by simpa using hheld)]
    rw [hpicked, hsigners, hseq] at hpinned
    cases hpinned
    rw [hres, EULOTLSource.verify_again hlist hparsed hpivots rfl hv']

/-! ## Territories -/

/-- The entry is read off bytes with its digest, under the settings. -/
def GroundedEntry (rt : Runtime) (cfg : Config) (t : Territory) : Prop :=
  ∃ raw tl anchors warnings, t.sourceDigest = rt.sha256hex raw ∧ signedList rt raw = some tl ∧
    extractAnchors rt tl t.code cfg.acceptedStatuses cfg.acceptedServiceTypes = .ok (anchors, warnings) ∧
    t.tlSequence = tl.schemeInformation.tslSequenceNumber ∧
    t.anchors = anchors.map fun a => { a with tlSequence := toInt64 tl.schemeInformation.tslSequenceNumber }

theorem GroundedEntry.eq (hsha : Function.Injective rt.sha256) (h : GroundedEntry rt cfg t)
    (hpt : GroundedEntry rt cfg pt) (hcode : t.code = pt.code) (hdigest : t.sourceDigest = pt.sourceDigest) :
    t.tlSequence = pt.tlSequence ∧ t.anchors = pt.anchors := by
  obtain ⟨raw, tl, anchors, warnings, hraw, htl, hex, hseq, hanchors⟩ := h
  obtain ⟨raw', tl', anchors', warnings', hraw', htl', hex', hseq', hanchors'⟩ := hpt
  obtain rfl : raw = raw' := hsha (hexEncode_injective (hraw.symm.trans (hdigest.trans hraw')))
  obtain rfl := Option.some.inj (htl.symm.trans htl')
  rw [hcode] at hex
  obtain ⟨rfl, -⟩ := Prod.mk.inj (Except.ok.inj (hex.symm.trans hex'))
  exact ⟨hseq.trans hseq'.symm, hanchors.trans hanchors'.symm⟩

theorem Reused.grounded (h : Reused pt t) (hpt : GroundedEntry rt cfg pt) : GroundedEntry rt cfg t := by
  unfold GroundedEntry
  rw [h.sourceDigest, h.code, h.tlSequence, h.anchors]
  exact hpt

theorem readTL_grounded {ps : PointerSet} (h : readTL rt cfg cy ps prev code f = some t) :
    GroundedEntry rt cfg t := by
  obtain ⟨lp, raw, -, hraw, hread⟩ := readTL_eq_some h
  obtain ⟨tl, anchors, warnings, htl, hex, rfl⟩ := readTerritory_ok hread
  obtain ⟨⟨signers, verified, signer, -, hv, hparse⟩, -, -⟩ := NationalTLSource.verify_ok htl
  exact ⟨raw.bytes, tl, anchors, warnings, NationalTLSource.fetch_digest hraw,
    signedList_of_verify hv hparse, hex, rfl, rfl⟩

/-! ## Snapshots -/

/-- A snapshot that is made in auto mode under one configuration. -/
structure Grounded (rt : Runtime) (cfg : Config) (s : Snapshot) : Prop where
  pending : s.pending = []
  lotl : GroundedLOTL rt (carriedLOTL s)
  codes : s.territories.map Territory.code = expandTerritories cfg.territories (carriedLOTL s).pointers
  entries : ∀ t ∈ s.territories, t.failed = false → GroundedEntry rt cfg t
  floor : s.territories ≠ [] → ∃ t ∈ s.territories, t.failed = false

theorem ingestTerritory_grounded {ps : PointerSet} (hprev : ∀ p ∈ prev, WellFormed rt p ∧ Grounded rt cfg p)
    (h : (ingestTerritory rt cfg cy ps code prev f).1 = .ok t) : GroundedEntry rt cfg t := by
  have hhealthy : t.failed = false :=
    ingestTerritory_not_failed (fun p hp => (hprev p hp).1.failedBlank) h
  obtain ⟨t', hread, hok⟩ | ⟨-, ⟨e, herr⟩ | ⟨p, pt, t', rfl, hpt, hok, hsame⟩⟩ :=
    ingestTerritory_cases rt cfg cy ps code prev f
  · obtain rfl := Except.ok.inj (h.symm.trans hok)
    exact readTL_grounded hread
  · rw [h] at herr
    cases herr
  · obtain rfl := Except.ok.inj (h.symm.trans hok)
    refine hsame.grounded ((hprev p rfl).2.entries pt (List.mem_of_find?_eq_some hpt) ?_)
    rw [← hsame.failed]
    exact hhealthy

theorem refresh_grounded (hauto : cfg.activationMode = .auto)
    (hprev : ∀ p ∈ prev, WellFormed rt p ∧ Grounded rt cfg p)
    (h : refresh rt cfg cy prev boot f = (.ok next, f')) : Grounded rt cfg next := by
  obtain ⟨res, f₁, outs, hres, -, houts, hfloor, rfl⟩ := refresh_ok h
  have hcodes : (outs.map entryOf).map Territory.code = expandTerritories cfg.territories res.pointers := by
    rw [houts, outcomes_map_code]
  rw [applyHoldMode_auto (by simp [hauto])]
  refine ⟨rfl, ingestLOTL_grounded (fun p hp => (hprev p hp).2.lotl) hres, hcodes, ?_, ?_⟩
  · intro t ht hhealthy
    obtain ⟨⟨c, r⟩, ho, rfl⟩ := List.mem_map.1 ht
    rw [houts] at ho
    obtain ⟨g, -, hr⟩ := mem_outcomes ho
    cases r with
    | error e => cases hhealthy
    | ok t => exact ingestTerritory_grounded hprev hr.symm
  · intro hne
    have hexpanded : expandTerritories cfg.territories res.pointers ≠ [] := by
      rw [← hcodes]
      simpa using hne
    obtain ⟨o, ho, hok⟩ := List.countP_pos_iff.1 (Nat.pos_of_ne_zero (hfloor hexpanded))
    refine ⟨entryOf o, List.mem_map_of_mem ho, ?_⟩
    rw [entryOf_failed (fun p hp => (hprev p hp).1.failedBlank) (houts ▸ ho), hok]
    rfl

theorem grounded_kept (hauto : cfg.activationMode = .auto) :
    Kept rt (· = cfg) fun s => WellFormed rt s ∧ Grounded rt cfg s where
  unloaded h := ⟨h.1.unloaded, h.2.pending, h.2.lotl, h.2.codes, h.2.entries, h.2.floor⟩
  advances := by
    rintro cfg' prev next rfl hprev h
    refine ⟨(wellFormed_kept rt).advances trivial (fun p hp => (hprev p hp).1) h, ?_⟩
    cases h with
    | cycle h => exact refresh_grounded hauto hprev h
    | @declared readFile prev next now rep h =>
        obtain ⟨-, hp⟩ := hprev prev rfl
        obtain ⟨rfl, -⟩ := refreshDeclared_eq h
        exact ⟨hp.pending, hp.lotl, hp.codes, hp.entries, hp.floor⟩
    | @approve cur fp pa now h =>
        -- nothing is ever pending
        rw [(hprev cur rfl).2.pending] at h
        cases h

end TrustAnchor.Ingest
