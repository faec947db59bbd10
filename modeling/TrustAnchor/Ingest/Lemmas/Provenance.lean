import TrustAnchor.Ingest.Lemmas.Manager
import TrustAnchor.Trust.Lemmas.Extract

/-!
# Provenance is kept by every step

A snapshot carries the signer set and the pointers that the next cycle starts from, so their provenance
is part of what is carried through a run.
-/

namespace TrustAnchor.Ingest

open Lib Tsl Trust

variable {rt : Runtime} {boot : Bootstrap}

/-! ## Pointers -/

@[simp] theorem listPointer_territory (lotl : TrustedList) (code : String) :
    (listPointer rt lotl code).territory = code := by
  unfold listPointer
  split
  · rfl
  · split <;> rfl

/-- Every failure has a text, so an entry without one is a pointer of the list. -/
theorem listPointer_of_no_failure {lotl : TrustedList} {code : String}
    (h : (listPointer rt lotl code).failure = "") :
    ∃ ptr, lotl.pointerFor code = .ok ptr ∧ (listPointer rt lotl code).url = ptr.tslLocation ∧
      ptr.certificateDERs rt = .ok (listPointer rt lotl code).signersDER := by
  have hptr : ∃ ptr, lotl.pointerFor code = .ok ptr := by
    cases hp : lotl.pointerFor code with
    | ok ptr => exact ⟨ptr, rfl⟩
    | error e =>
        have he : e = TrustedList.errNoXMLPointer code := by
          unfold TrustedList.pointerFor at hp
          split at hp
          · cases hp
          · exact (Except.error.inj hp).symm
        simp [listPointer, hp, he, TrustedList.errNoXMLPointer, Err.failure] at h
  obtain ⟨ptr, hptr⟩ := hptr
  refine ⟨ptr, hptr, ?_⟩
  cases hders : ptr.certificateDERs rt with
  | error e => simp [listPointer, hptr, hders] at h
  | ok ders => simp [listPointer, hptr, hders]

theorem PointerSet.pointerFor_ok {ps : PointerSet} {code : String} {lp : ListPointer}
    (h : ps.pointerFor code = .ok lp) : lp ∈ ps.list ∧ lp.territory = code ∧ lp.failure = "" := by
  unfold pointerFor at h
  split at h
  · cases h
  · rename_i lp' hfind
    split at h
    · cases h
    · rename_i hfailure
      cases h
      exact ⟨List.mem_of_find?_eq_some hfind, by simpa using List.find?_some hfind, by simpa using hfailure⟩

theorem lotlPointerSet_pointerFor {lotl : TrustedList} {code : String} {lp : ListPointer}
    (h : (lotlPointerSet rt lotl).pointerFor code = .ok lp) :
    ∃ ptr, lotl.pointerFor code = .ok ptr ∧ lp.url = ptr.tslLocation ∧
      ptr.certificateDERs rt = .ok lp.signersDER := by
  obtain ⟨hmem, rfl, hfailure⟩ := PointerSet.pointerFor_ok h
  obtain ⟨code, -, rfl⟩ := List.mem_map.1 hmem
  rw [listPointer_territory]
  exact listPointer_of_no_failure hfailure

/-! ## Snapshots -/

theorem AnchorFrom.extracted {code : String} {a : Anchor} (h : AnchorFrom rt boot code a) :
    Extracted rt code a := by
  obtain ⟨tl, sts, tys, anchors, warnings, -, hex, a₀, ha₀, rfl⟩ := h
  obtain ⟨hcode, hsource, hfp⟩ := extractAnchors_extracted hex a₀ ha₀
  exact ⟨hcode, hsource, hfp⟩

/-- The signer set of a snapshot is one that verified pivots lead to. -/
def SignersOf (rt : Runtime) (boot : Bootstrap) (der : List Bytes) : Prop :=
  ∃ certs signers, bootstrapCertificates rt boot = .ok certs ∧ SignersFrom rt certs signers ∧
    Parsed rt signers ∧ der = certsDER signers

/-- The pointers are those of a verified list of the lists. -/
def PointersOf (rt : Runtime) (boot : Bootstrap) (ps : PointerSet) : Prop :=
  ∃ lotl, VerifiedLOTL rt boot lotl ∧ ps = lotlPointerSet rt lotl

/-- Everything a snapshot holds from upstream has its origin in the chain of trust from `boot`. -/
structure SnapshotFrom (rt : Runtime) (boot : Bootstrap) (s : Snapshot) : Prop where
  signers : SignersOf rt boot s.lotlSignersDER
  pointers : PointersOf rt boot ⟨s.lotlPointers⟩
  territories : ∀ t ∈ s.territories, ∀ a ∈ t.anchors, AnchorFrom rt boot t.code a
  pending : ∀ p ∈ s.pending, AnchorFrom rt boot p.anchor.territory p.anchor

/-- The next cycle starts from a signer set that pivots lead to. -/
theorem pinnedSigners_from {prev : Option Snapshot} {pinned : List Bytes} {seq : Nat}
    (hprev : ∀ p ∈ prev, SnapshotFrom rt boot p) (h : pinnedSigners rt prev boot = .ok (pinned, seq)) :
    SignersOf rt boot pinned := by
  unfold pinnedSigners at h
  split at h
  · rename_i p hp
    cases h
    exact (hprev p (Option.filter_eq_some_iff.1 hp).1).signers
  · obtain ⟨certs, hcerts, h⟩ := Result.bind_eq_ok.1 h
    cases h
    exact ⟨certs, certs, hcerts, .refl, parseDERCerts_parsed (bootstrapCertificates_eq_ok.1 hcerts), rfl⟩

theorem ingestLOTL_from {cfg : Config} {cy : Cycle} {prev : Option Snapshot} {f f' : Fetcher}
    {res : LOTLResult} (hprev : ∀ p ∈ prev, SnapshotFrom rt boot p)
    (h : ingestLOTL rt cfg cy prev boot f = (.ok res, f')) :
    SignersOf rt boot res.signersDER ∧ PointersOf rt boot res.pointers := by
  obtain ⟨p, -, -, rfl, -, rfl⟩ | ⟨raw, g, pinned, seq, v, -, hpinned, hv, rfl⟩ := ingestLOTL_ok h
  · exact ⟨(hprev p rfl).signers, (hprev p rfl).pointers⟩
  · obtain ⟨certs, start, hcerts, hstart, hparsed, rfl⟩ := pinnedSigners_from hprev hpinned
    obtain ⟨start', verified, signer, hstart', hreach, hvparsed, hverify, hparse⟩ :=
      EULOTLSource.verify_ok hv
    -- the carried bytes parse back to the set they were taken from
    rw [parseDERCerts_certsDER hparsed] at hstart'
    cases hstart'
    have hfrom : SignersFrom rt certs v.signers := hstart.trans hreach
    exact ⟨⟨certs, v.signers, hcerts, hfrom, hvparsed, rfl⟩,
      ⟨v.list, ⟨certs, v.signers, _, _, verified, signer, hcerts, hfrom, hverify, hparse⟩, rfl⟩⟩

/-- The anchor was extracted from the verified list `tl` of the territory, which has the number `seq`. -/
structure ReadOff (rt : Runtime) (boot : Bootstrap) (code : String) (seq : Nat) (a : Anchor) (tl : TrustedList) :
    Prop where
  verified : VerifiedTL rt boot code tl
  sequence : seq = tl.schemeInformation.tslSequenceNumber
  extracted : ∃ acceptedStatuses acceptedTypes anchors warnings,
    extractAnchors rt tl code acceptedStatuses acceptedTypes = .ok (anchors, warnings) ∧
      ∃ a₀ ∈ anchors, a = { a₀ with tlSequence := toInt64 seq }

theorem ReadOff.anchorFrom {code : String} {seq : Nat} {a : Anchor} {tl : TrustedList}
    (h : ReadOff rt boot code seq a tl) : AnchorFrom rt boot code a := by
  obtain ⟨hverified, rfl, sts, tys, anchors, warnings, hex, a₀, ha₀, rfl⟩ := h
  exact ⟨tl, sts, tys, anchors, warnings, hverified, hex, a₀, ha₀, rfl⟩

theorem ReadOff.tlSequence {code : String} {seq : Nat} {a : Anchor} {tl : TrustedList}
    (h : ReadOff rt boot code seq a tl) : a.tlSequence = toInt64 seq := by
  obtain ⟨_, _, _, _, -, a₀, -, ha⟩ := h.extracted
  rw [ha]

theorem readTerritory_readOff {cfg : Config} {now clock : Time} {code : String} {lp : ListPointer}
    {prevT : Option Territory} {ps : PointerSet} {raw : Raw} {t : Territory}
    (hps : PointersOf rt boot ps) (hlp : ps.pointerFor code = .ok lp)
    (h : readTerritory rt (nationalTLSource cfg now code lp prevT) clock raw lp.signersDER = .ok t) :
    t.code = code ∧ ∀ a ∈ t.anchors, ∃ tl, ReadOff rt boot code t.tlSequence a tl := by
  obtain ⟨lotl, hlotl, rfl⟩ := hps
  obtain ⟨ptr, hptr, -, hders⟩ := lotlPointerSet_pointerFor hlp
  obtain ⟨tl, anchors, warnings, hverify, hex, rfl⟩ := readTerritory_ok h
  obtain ⟨⟨signers, verified, signer, hsigners, hv, hp⟩, hcode, -⟩ := NationalTLSource.verify_ok hverify
  refine ⟨rfl, ?_⟩
  intro a ha
  obtain ⟨a₀, ha₀, rfl⟩ := List.mem_map.1 ha
  exact ⟨tl, ⟨lotl, ptr, _, signers, _, _, verified, signer, hlotl, hptr, hders, hsigners, hv, hp, hcode⟩, rfl,
    _, _, anchors, warnings, hex, a₀, ha₀, rfl⟩

theorem ingestTerritory_from {cfg : Config} {cy : Cycle} {prev : Option Snapshot} {ps : PointerSet}
    {code : String} {f : Fetcher} {t : Territory} (hprev : ∀ p ∈ prev, SnapshotFrom rt boot p)
    (hps : PointersOf rt boot ps) (h : (ingestTerritory rt cfg cy ps code prev f).1 = .ok t) :
    ∀ a ∈ t.anchors, AnchorFrom rt boot t.code a := by
  obtain ⟨p, pt, rfl, hpt, hsame⟩ | ⟨lp, raw, hlp, hread⟩ := ingestTerritory_ok h
  · rw [hsame.anchors, hsame.code]
    exact (hprev p rfl).territories pt (List.mem_of_find?_eq_some hpt)
  · obtain ⟨hcode, hread⟩ := readTerritory_readOff hps hlp hread
    intro a ha
    obtain ⟨tl, htl⟩ := hread a ha
    rw [hcode]
    exact htl.anchorFrom

/-- One cycle keeps provenance: whatever the network answers, nothing of another origin enters. -/
theorem refresh_from {cfg : Config} {cy : Cycle} {prev : Option Snapshot} {f f' : Fetcher}
    {next : Snapshot} (hprev : ∀ p ∈ prev, SnapshotFrom rt boot p)
    (h : refresh rt cfg cy prev boot f = (.ok next, f')) : SnapshotFrom rt boot next := by
  obtain ⟨res, f₁, outs, hres, -, houts, -, rfl⟩ := refresh_ok h
  obtain ⟨hsigners, hpointers⟩ := ingestLOTL_from hprev hres
  have hentry : ∀ t ∈ outs.map entryOf, ∀ a ∈ t.anchors, AnchorFrom rt boot t.code a := by
    intro t ht
    obtain ⟨⟨code, r⟩, ho, rfl⟩ := List.mem_map.1 ht
    subst houts
    obtain ⟨g, -, hr⟩ := mem_outcomes ho
    cases r with
    | error e => simp [entryOf, failedTerritory]
    | ok t => exact ingestTerritory_from hprev hpointers hr.symm
  refine ⟨by simpa using hsigners, by simpa using hpointers, ?_, ?_⟩
  · intro t ht a ha
    rw [stamp_territories] at ht
    obtain ⟨t₀, ht₀, hcode, hsub⟩ := mem_applyHoldMode_territories ht
    rw [hcode]
    exact hentry t₀ ht₀ a (hsub a ha)
  · intro pa hpa
    rw [stamp_pending] at hpa
    obtain h | ⟨t, ht, ha⟩ := mem_applyHoldMode_pending hpa
    · simp at h
    · have hfrom := hentry t ht pa.anchor ha
      rw [hfrom.extracted.territory]
      exact hfrom

/-! ## Operations -/

theorem SnapshotFrom.sameUpstream {s s' : Snapshot} (heq : SameUpstream s s')
    (h : SnapshotFrom rt boot s) : SnapshotFrom rt boot s' where
  signers := by rw [heq.lotlSignersDER]; exact h.signers
  pointers := by rw [heq.lotlPointers]; exact h.pointers
  territories := by rw [heq.territories]; exact h.territories
  pending := by rw [heq.pending]; exact h.pending

theorem SnapshotFrom.approve {cur : Snapshot} {fp : String} {pa : PendingAnchor} {now : Time}
    (h : SnapshotFrom rt boot cur)
    (hpa : cur.pending.find? (fun pa => pa.anchor.fingerprintSHA256 = fp) = some pa) :
    SnapshotFrom rt boot (Service.approve rt cur { cur with declaredLoad := none } pa.anchor now) := by
  refine ⟨h.signers, h.pointers, ?_, fun p hp => h.pending p (List.mem_of_mem_eraseP hp)⟩
  intro t ht x hx
  obtain ht | ⟨t₀, ht₀, hcode, rfl⟩ := mem_moveToTerritory ht
  · exact h.territories t ht x hx
  · rcases mem_withAnchor.1 hx with hx | rfl
    · rcases ht₀ with ht₀ | rfl
      · exact h.territories t₀ ht₀ x hx
      · cases hx
    · rw [show (withAnchor t₀ pa.anchor).code = pa.anchor.territory from hcode]
      exact h.pending pa (List.mem_of_find?_eq_some hpa)

theorem snapshotFrom_stable (rt : Runtime) (cfg : Config) :
    Stable rt cfg (fun _ _ _ _ => True) (SnapshotFrom rt) where
  sameUpstream heq h := h.sameUpstream heq
  cycle hprev _ h := refresh_from hprev h
  approve h hpa := h.approve hpa

end TrustAnchor.Ingest
