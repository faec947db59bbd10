import TrustAnchor.Ingest.Lemmas.Manager
import TrustAnchor.Lib.Key
import TrustAnchor.Trust.Lemmas.Extract

/-!
# Hold mode in terms of territories and fingerprints

Hold mode compares keys. On the snapshots that cycles and approvals make, a key stands for one territory
and one fingerprint, and so does an entry of the pending set.
-/

namespace TrustAnchor.Ingest

open Lib Tsl Trust

variable {rt : Runtime} {cfg : Config}

/-- The entries of the territory list the fingerprint. -/
def Listed (ts : List Territory) (code fp : String) : Prop :=
  ∃ t ∈ ts, t.code = code ∧ ∃ a ∈ t.anchors, a.fingerprintSHA256 = fp

instance (ts : List Territory) (code fp : String) : Decidable (Listed ts code fp) := by
  unfold Listed
  infer_instance

def ActiveIn (s : Snapshot) (code fp : String) : Prop := Listed s.territories code fp

instance (s : Snapshot) (code fp : String) : Decidable (ActiveIn s code fp) :=
  inferInstanceAs (Decidable (Listed _ _ _))

def PendingIn (s : Snapshot) (code fp : String) (firstSeen : Time) : Prop :=
  ∃ pa ∈ s.pending, pa.anchor.territory = code ∧ pa.anchor.fingerprintSHA256 = fp ∧
    pa.firstSeen = firstSeen

instance (s : Snapshot) (code fp : String) (firstSeen : Time) :
    Decidable (PendingIn s code fp firstSeen) := by
  unfold PendingIn
  infer_instance

/-- The time after which a held addition is served has passed. -/
def Released (cfg : Config) (now firstSeen : Time) : Prop :=
  0 < cfg.holdAutoRelease ∧ cfg.holdAutoRelease ≤ timeSub now firstSeen

/-! ## Orderly snapshots -/

/-- One entry for each territory, with one anchor of the territory for each fingerprint. -/
structure OrderlyEntries (rt : Runtime) (ts : List Territory) : Prop where
  codes : (ts.map Territory.code).Nodup
  anchors : ∀ t ∈ ts, ∀ a ∈ t.anchors, Extracted rt t.code a
  fingerprints : ∀ t ∈ ts, (t.anchors.map Anchor.fingerprintSHA256).Nodup

/-- The territory and the fingerprint of a held addition. -/
def pendingPair (pa : PendingAnchor) : String × String :=
  (pa.anchor.territory, pa.anchor.fingerprintSHA256)

/-- Orderly entries, and nothing held twice or held while it is served. -/
structure Orderly (rt : Runtime) (s : Snapshot) : Prop where
  entries : OrderlyEntries rt s.territories
  pending : ∀ pa ∈ s.pending, Extracted rt pa.anchor.territory pa.anchor
  pendingNodup : (s.pending.map pendingPair).Nodup
  disjoint : ∀ pa ∈ s.pending, ¬ ActiveIn s pa.anchor.territory pa.anchor.fingerprintSHA256

theorem Listed.slash_notMem {ts : List Territory} {code fp : String} (hts : OrderlyEntries rt ts)
    (h : Listed ts code fp) : '/' ∉ fp.toList := by
  obtain ⟨t, ht, -, a, ha, rfl⟩ := h
  exact (hts.anchors t ht a ha).slash_notMem

theorem PendingIn.slash_notMem {s : Snapshot} {code fp : String} {first : Time} (hs : Orderly rt s)
    (h : PendingIn s code fp first) : '/' ∉ fp.toList := by
  obtain ⟨pa, hpa, -, rfl, -⟩ := h
  exact (hs.pending pa hpa).slash_notMem

/-! ## Keys -/

theorem holdKey_inj {code code' fp fp' : String} (h : '/' ∉ fp.toList) (h' : '/' ∉ fp'.toList) :
    holdKey code fp = holdKey code' fp' ↔ code = code' ∧ fp = fp' := by
  have hkey : ∀ c f : String, (holdKey c f).toList = c.toList ++ '/' :: f.toList := by
    simp [holdKey]
  rw [← String.toList_inj, hkey, hkey, append_cons_inj_of_notMem_right h h', String.toList_inj,
    String.toList_inj]

variable {s : Snapshot} {code fp : String}

theorem mem_prevActive (hs : Orderly rt s) (hfp : '/' ∉ fp.toList) :
    holdKey code fp ∈ prevActive s ↔ ActiveIn s code fp := by
  simp only [prevActive, List.mem_flatMap, List.mem_map, ActiveIn, Listed]
  constructor
  · rintro ⟨t, ht, a, ha, hkey⟩
    obtain ⟨rfl, rfl⟩ := (holdKey_inj (hs.entries.anchors t ht a ha).slash_notMem hfp).1 hkey
    exact ⟨t, ht, rfl, a, ha, rfl⟩
  · rintro ⟨t, ht, rfl, a, ha, rfl⟩
    exact ⟨t, ht, a, ha, rfl⟩

theorem prevPending_eq_some (hs : Orderly rt s) (hfp : '/' ∉ fp.toList) {pa : PendingAnchor} :
    prevPending s (holdKey code fp) = some pa ↔ pa ∈ s.pending ∧ pendingPair pa = (code, fp) := by
  have hkey : ∀ pa ∈ s.pending, holdKey pa.anchor.territory pa.anchor.fingerprintSHA256 = holdKey code fp ↔
      pendingPair pa = (code, fp) := by
    intro pa hpa
    rw [holdKey_inj (hs.pending pa hpa).slash_notMem hfp, pendingPair, Prod.mk.injEq]
  constructor
  · intro h
    have hpa := List.mem_reverse.1 (List.mem_of_find?_eq_some h)
    exact ⟨hpa, (hkey pa hpa).1 (by simpa using List.find?_some h)⟩
  · rintro ⟨hpa, hpair⟩
    cases hfind : prevPending s (holdKey code fp) with
    | none =>
        have := List.find?_eq_none.1 hfind pa (List.mem_reverse.2 hpa)
        exact absurd ((hkey pa hpa).2 hpair) (by simpa using this)
    | some pa' =>
        have hpa' := List.mem_reverse.1 (List.mem_of_find?_eq_some hfind)
        have hpair' := (hkey pa' hpa').1 (by simpa using List.find?_some hfind)
        rw [List.inj_on_of_nodup_map hs.pendingNodup hpa' hpa (hpair'.trans hpair.symm)]

/-! ## What is held -/

variable {now first : Time}

/-- A key is served when it was served before or has been held for long enough. -/
theorem heldSince_eq_none (hs : Orderly rt s) (hfp : '/' ∉ fp.toList)
    (h : heldSince cfg (some s) now (holdKey code fp) = none) :
    ActiveIn s code fp ∨ ∃ first, PendingIn s code fp first ∧ Released cfg now first := by
  unfold heldSince at h
  simp only at h
  split_ifs at h with hactive
  · exact .inl ((mem_prevActive hs hfp).1 hactive)
  · split at h
    · rename_i pa hpa
      obtain ⟨hmem, hpair⟩ := (prevPending_eq_some hs hfp).1 hpa
      obtain ⟨hcode, hfp'⟩ := Prod.mk.inj hpair
      split_ifs at h with hreleased
      exact .inr ⟨pa.firstSeen, ⟨pa, hmem, hcode, hfp', rfl⟩, hreleased⟩
    · cases h

/-- A key is held with the time it is already held with, or with the time of the cycle. -/
theorem heldSince_eq_some (hs : Orderly rt s) (hfp : '/' ∉ fp.toList)
    (h : heldSince cfg (some s) now (holdKey code fp) = some first) :
    PendingIn s code fp first ∨ first = now := by
  unfold heldSince at h
  simp only at h
  split_ifs at h with hactive
  split at h
  · rename_i pa hpa
    obtain ⟨hmem, hpair⟩ := (prevPending_eq_some hs hfp).1 hpa
    obtain ⟨hcode, hfp'⟩ := Prod.mk.inj hpair
    split_ifs at h
    cases h
    exact .inl ⟨pa, hmem, hcode, hfp', rfl⟩
  · exact .inr (Option.some.inj h).symm

theorem heldSince_of_pending (hs : Orderly rt s) (h : PendingIn s code fp first) :
    heldSince cfg (some s) now (holdKey code fp) = none ∨
      heldSince cfg (some s) now (holdKey code fp) = some first := by
  have hfp := h.slash_notMem hs
  obtain ⟨pa, hpa, rfl, rfl, rfl⟩ := h
  have hpending := (prevPending_eq_some hs hfp).2 ⟨hpa, rfl⟩
  simp only [heldSince, hpending]
  split_ifs <;> simp

variable {prev : Option Snapshot} {next : Snapshot}

theorem activeIn_applyHoldMode (hhold : cfg.activationMode = .hold) :
    ActiveIn (applyHoldMode rt cfg prev next now) code fp ↔
      Listed next.territories code fp ∧ heldSince cfg prev now (holdKey code fp) = none := by
  simp only [ActiveIn, Listed, applyHoldMode, hhold, ne_eq, not_true_eq_false, if_false, List.mem_map]
  constructor
  · rintro ⟨_, ⟨t, ht, rfl⟩, rfl, a, ha, rfl⟩
    obtain ⟨ha, hnone⟩ := List.mem_filter.1 ha
    exact ⟨⟨t, ht, rfl, a, ha, rfl⟩, by simpa using hnone⟩
  · rintro ⟨⟨t, ht, rfl, a, ha, rfl⟩, hnone⟩
    exact ⟨_, ⟨t, ht, rfl⟩, rfl, a, List.mem_filter.2 ⟨ha, by simpa using hnone⟩, rfl⟩

theorem pendingIn_applyHoldMode (hhold : cfg.activationMode = .hold) (hnext : next.pending = [])
    (hts : OrderlyEntries rt next.territories) :
    PendingIn (applyHoldMode rt cfg prev next now) code fp first ↔
      Listed next.territories code fp ∧ heldSince cfg prev now (holdKey code fp) = some first := by
  simp only [PendingIn, Listed, applyHoldMode, hhold, ne_eq, not_true_eq_false, if_false, hnext,
    List.nil_append, Sorter.mem_run, List.mem_flatMap, heldAnchors, List.mem_filterMap,
    Option.map_eq_some_iff]
  constructor
  · rintro ⟨_, ⟨t, ht, a, ha, f, hf, rfl⟩, rfl, rfl, rfl⟩
    have hcode := (hts.anchors t ht a ha).territory
    exact ⟨⟨t, ht, hcode.symm, a, ha, rfl⟩, by simpa [hcode] using hf⟩
  · rintro ⟨⟨t, ht, rfl, a, ha, rfl⟩, hsome⟩
    exact ⟨⟨a, first⟩, ⟨t, ht, a, ha, first, hsome, rfl⟩, (hts.anchors t ht a ha).territory, rfl, rfl⟩

theorem heldAnchors_map_anchor (t : Territory) : (heldAnchors cfg prev now t).map PendingAnchor.anchor =
    t.anchors.filter fun a => (heldSince cfg prev now (holdKey t.code a.fingerprintSHA256)).isSome := by
  unfold heldAnchors
  induction t.anchors with
  | nil => rfl
  | cons a as ih =>
      cases hheld : heldSince cfg prev now (holdKey t.code a.fingerprintSHA256) <;> simp [hheld, ih]

theorem heldAnchors_pairs_nodup (t : Territory) (h : (t.anchors.map Anchor.fingerprintSHA256).Nodup) :
    ((heldAnchors cfg prev now t).map pendingPair).Nodup := by
  have hpair : (heldAnchors cfg prev now t).map (fun pa => pa.anchor.fingerprintSHA256) =
      ((heldAnchors cfg prev now t).map pendingPair).map Prod.snd := by
    simp [pendingPair]
  refine List.Nodup.of_map Prod.snd ?_
  rw [← hpair, ← Function.comp_def Anchor.fingerprintSHA256, ← List.map_map, heldAnchors_map_anchor]
  exact h.sublist ((List.filter_sublist).map _)

theorem mem_heldAnchors {t : Territory} {pa : PendingAnchor} (h : pa ∈ heldAnchors cfg prev now t) :
    pa.anchor ∈ t.anchors ∧
      heldSince cfg prev now (holdKey t.code pa.anchor.fingerprintSHA256) = some pa.firstSeen := by
  obtain ⟨a, ha, hmap⟩ := List.mem_filterMap.1 h
  obtain ⟨f, hf, rfl⟩ := Option.map_eq_some_iff.1 hmap
  exact ⟨ha, hf⟩

theorem orderlyEntries_applyHoldMode (hts : OrderlyEntries rt next.territories) :
    OrderlyEntries rt (applyHoldMode rt cfg prev next now).territories := by
  unfold applyHoldMode
  split
  · exact hts
  · refine ⟨by simpa [Function.comp_def] using hts.codes, ?_, ?_⟩
    · intro t ht a ha
      obtain ⟨t₀, ht₀, rfl⟩ := List.mem_map.1 ht
      exact hts.anchors t₀ ht₀ a (List.mem_filter.1 ha).1
    · intro t ht
      obtain ⟨t₀, ht₀, rfl⟩ := List.mem_map.1 ht
      exact (hts.fingerprints t₀ ht₀).sublist (List.filter_sublist.map _)

theorem orderly_applyHoldMode (hnext : next.pending = []) (hts : OrderlyEntries rt next.territories) :
    Orderly rt (applyHoldMode rt cfg prev next now) := by
  by_cases hhold : cfg.activationMode = .hold
  · have hpending : ∀ pa ∈ (applyHoldMode rt cfg prev next now).pending,
        PendingIn (applyHoldMode rt cfg prev next now) pa.anchor.territory pa.anchor.fingerprintSHA256
          pa.firstSeen := fun pa hpa => ⟨pa, hpa, rfl, rfl, rfl⟩
    refine ⟨?_, ?_, ?_, ?_⟩
    · exact orderlyEntries_applyHoldMode hts
    · intro pa hpa
      obtain h | ⟨t, ht, ha⟩ := mem_applyHoldMode_pending hpa
      · simp [hnext] at h
      · have hex := hts.anchors t ht _ ha
        rw [hex.territory]
        exact hex
    · simp only [applyHoldMode, hhold, ne_eq, not_true_eq_false, if_false, hnext, List.nil_append]
      rw [((rt.sortSlice.perm _ _).map _).nodup_iff, List.map_flatMap, List.nodup_flatMap]
      refine ⟨fun t ht => heldAnchors_pairs_nodup t (hts.fingerprints t ht), ?_⟩
      -- entries of different territories hold different pairs
      refine List.Pairwise.imp_of_mem ?_ (List.pairwise_map.1 hts.codes)
      intro t t' ht ht' hne pair hpair hpair'
      obtain ⟨pa, hpa, rfl⟩ := List.mem_map.1 hpair
      obtain ⟨pa', hpa', heq⟩ := List.mem_map.1 hpair'
      have hcode := (hts.anchors t ht _ (mem_heldAnchors hpa).1).territory
      have hcode' := (hts.anchors t' ht' _ (mem_heldAnchors hpa').1).territory
      have := (Prod.mk.inj heq).1
      exact hne (by rw [← hcode, ← hcode', this])
    · intro pa hpa hactive
      have hsome := ((pendingIn_applyHoldMode hhold hnext hts).1 (hpending pa hpa)).2
      rw [((activeIn_applyHoldMode hhold).1 hactive).2] at hsome
      cases hsome
  · rw [applyHoldMode_auto hhold]
    exact ⟨hts, by simp [hnext], by simp [hnext], by simp [hnext]⟩

/-! ## Cycles and approvals -/

theorem ingestTerritory_orderly {cy : Cycle} {ps : PointerSet} {f : Fetcher} {t : Territory}
    (hprev : ∀ p ∈ prev, Orderly rt p) (h : (ingestTerritory rt cfg cy ps code prev f).1 = .ok t) :
    t.code = code ∧ (∀ a ∈ t.anchors, Extracted rt t.code a) ∧
      (t.anchors.map Anchor.fingerprintSHA256).Nodup := by
  obtain ⟨p, pt, rfl, hpt, hsame⟩ | ⟨lp, raw, -, hread⟩ := ingestTerritory_ok h
  · have hmem := List.mem_of_find?_eq_some hpt
    have hp := (hprev p rfl).entries
    refine ⟨ingestTerritory_code h, ?_⟩
    rw [hsame.anchors, hsame.code]
    exact ⟨hp.anchors pt hmem, hp.fingerprints pt hmem⟩
  · obtain ⟨tl, anchors, warnings, -, hex, rfl⟩ := readTerritory_ok hread
    refine ⟨rfl, ?_, ?_⟩
    · intro a ha
      obtain ⟨a₀, ha₀, rfl⟩ := List.mem_map.1 ha
      obtain ⟨hterritory, hsource, hfp⟩ := extractAnchors_extracted hex a₀ ha₀
      exact ⟨hterritory, hsource, hfp⟩
    · simpa [Function.comp_def] using extractAnchors_nodup hex

theorem outcomes_orderly {cy : Cycle} {ps : PointerSet} {f : Fetcher} {codes : List String}
    (hprev : ∀ p ∈ prev, Orderly rt p) (hcodes : codes.Nodup) :
    OrderlyEntries rt ((outcomes rt cfg cy ps prev codes f).map entryOf) := by
  have hentry : ∀ o ∈ outcomes rt cfg cy ps prev codes f,
      (∀ a ∈ (entryOf o).anchors, Extracted rt (entryOf o).code a) ∧
      ((entryOf o).anchors.map Anchor.fingerprintSHA256).Nodup := by
    rintro ⟨c, r⟩ ho
    obtain ⟨g, -, hr⟩ := mem_outcomes ho
    cases r with
    | error e => simp [entryOf, failedTerritory]
    | ok t => exact (ingestTerritory_orderly hprev hr.symm).2
  refine ⟨?_, ?_, ?_⟩
  · rw [outcomes_map_code]
    exact hcodes
  · intro t ht
    obtain ⟨o, ho, rfl⟩ := List.mem_map.1 ht
    exact (hentry o ho).1
  · intro t ht
    obtain ⟨o, ho, rfl⟩ := List.mem_map.1 ht
    exact (hentry o ho).2

theorem Orderly.sameUpstream {s' : Snapshot} (heq : SameUpstream s s') (h : Orderly rt s) :
    Orderly rt s' where
  entries := by rw [heq.territories]; exact h.entries
  pending := by rw [heq.pending]; exact h.pending
  pendingNodup := by rw [heq.pending]; exact h.pendingNodup
  disjoint := by simpa only [heq.pending, ActiveIn, heq.territories] using h.disjoint

theorem Orderly.stamp (h : Orderly rt s) : Orderly rt (stamp rt prev s) :=
  ⟨h.entries, h.pending, h.pendingNodup, h.disjoint⟩

theorem refresh_orderly {cy : Cycle} {boot : Bootstrap} {f f' : Fetcher}
    (hprev : ∀ p ∈ prev, Orderly rt p) (h : refresh rt cfg cy prev boot f = (.ok next, f')) :
    Orderly rt next := by
  obtain ⟨res, f₁, outs, -, -, rfl, -, rfl⟩ := refresh_ok h
  refine (orderly_applyHoldMode rfl ?_).stamp
  rw [cycleBase_territories]
  exact outcomes_orderly hprev (expandTerritories_nodup cfg.territories res.pointers)

/-- What a cycle in hold mode serves and holds, of all that its entries list. -/
theorem refresh_hold {cy : Cycle} {boot : Bootstrap} {f f' : Fetcher} (hhold : cfg.activationMode = .hold)
    (hprev : ∀ p ∈ prev, Orderly rt p) (h : refresh rt cfg cy prev boot f = (.ok next, f')) :
    ∃ res f₁ ts, ingestLOTL rt cfg cy prev boot f = (.ok res, f₁) ∧
      ts = (outcomes rt cfg cy res.pointers prev (expandTerritories cfg.territories res.pointers)
        f₁).map entryOf ∧
      OrderlyEntries rt ts ∧
      (∀ code fp, ActiveIn next code fp ↔
        Listed ts code fp ∧ heldSince cfg prev cy.now (holdKey code fp) = none) ∧
      ∀ code fp first, PendingIn next code fp first ↔
        Listed ts code fp ∧ heldSince cfg prev cy.now (holdKey code fp) = some first := by
  obtain ⟨res, f₁, outs, hres, -, rfl, -, rfl⟩ := refresh_ok h
  have hts : OrderlyEntries rt ((outcomes rt cfg cy res.pointers prev
      (expandTerritories cfg.territories res.pointers) f₁).map entryOf) :=
    outcomes_orderly hprev (expandTerritories_nodup cfg.territories res.pointers)
  exact ⟨res, f₁, _, hres, rfl, hts, fun code fp => activeIn_applyHoldMode hhold,
    fun code fp first => pendingIn_applyHoldMode hhold rfl hts⟩

section Approve

variable {pa : PendingAnchor}

/-- The approved addition is the only one that becomes active. -/
theorem listed_moveToTerritory (h : Listed (Service.moveToTerritory s pa.anchor) code fp) :
    ActiveIn s code fp ∨ pendingPair pa = (code, fp) := by
  obtain ⟨t, ht, rfl, a, ha, rfl⟩ := h
  obtain ht | ⟨t₀, ht₀, hcode, rfl⟩ := mem_moveToTerritory ht
  · exact .inl ⟨t, ht, rfl, a, ha, rfl⟩
  · rcases mem_withAnchor.1 ha with ha | rfl
    · rcases ht₀ with ht₀ | rfl
      · exact .inl ⟨t₀, ht₀, rfl, a, ha, rfl⟩
      · cases ha
    · exact .inr (Prod.ext hcode.symm rfl)

/-- Approving takes the approved addition out of the pending set. -/
theorem pendingPair_ne_of_mem_eraseP {pending : List PendingAnchor}
    (hnodup : (pending.map pendingPair).Nodup)
    (hpa : pending.find? (fun pa => pa.anchor.fingerprintSHA256 = fp) = some pa) {p : PendingAnchor}
    (hp : p ∈ pending.eraseP fun p => p.anchor.fingerprintSHA256 = pa.anchor.fingerprintSHA256) :
    pendingPair p ≠ pendingPair pa := by
  obtain ⟨hfp, before, after, rfl, hbefore⟩ := List.find?_eq_some_iff_append.1 hpa
  obtain rfl : pa.anchor.fingerprintSHA256 = fp := by simpa using hfp
  rw [List.eraseP_append_right _ (by simpa using hbefore), List.eraseP_cons_of_pos (by simp)] at hp
  rw [List.map_append, List.map_cons] at hnodup
  have hnotMem := (List.nodup_middle.1 hnodup).notMem
  intro heq
  rw [← heq, ← List.map_append] at hnotMem
  exact hnotMem (List.mem_map_of_mem hp)

theorem Orderly.approve (h : Orderly rt s)
    (hpa : s.pending.find? (fun pa => pa.anchor.fingerprintSHA256 = fp) = some pa) :
    Orderly rt (Service.approve rt s { s with declaredLoad := none } pa.anchor now) := by
  have hmem := List.mem_of_find?_eq_some hpa
  refine Orderly.stamp ⟨⟨moveToTerritory_codes h.entries.codes, ?_, ?_⟩, ?_, ?_, ?_⟩
  · intro t ht a ha
    obtain ht | ⟨t₀, ht₀, hcode, rfl⟩ := mem_moveToTerritory ht
    · exact h.entries.anchors t ht a ha
    · rcases mem_withAnchor.1 ha with ha | rfl
      · rcases ht₀ with ht₀ | rfl
        · exact h.entries.anchors t₀ ht₀ a ha
        · cases ha
      · exact hcode ▸ h.pending pa hmem
  · intro t ht
    obtain ht | ⟨t₀, ht₀, hcode, rfl⟩ := mem_moveToTerritory ht
    · exact h.entries.fingerprints t ht
    · rw [withAnchor, ((List.perm_insertionSort _ _).map _).nodup_iff, List.map_append,
        List.nodup_append]
      rcases ht₀ with ht₀ | rfl
      · refine ⟨h.entries.fingerprints t₀ ht₀, by simp, ?_⟩
        rintro x hx y hy rfl
        obtain ⟨a, ha, rfl⟩ := List.mem_map.1 hx
        exact h.disjoint pa hmem ⟨t₀, ht₀, hcode, a, ha, by simpa using hy⟩
      · simp
  · exact fun p hp => h.pending p (List.mem_of_mem_eraseP hp)
  · exact h.pendingNodup.sublist (List.eraseP_sublist.map _)
  · intro p hp hactive
    rcases listed_moveToTerritory hactive with hactive | hpair
    · exact h.disjoint p (List.mem_of_mem_eraseP hp) hactive
    · exact pendingPair_ne_of_mem_eraseP h.pendingNodup hpa hp hpair.symm

end Approve

theorem orderly_stable (rt : Runtime) (cfg : Config) :
    Stable rt cfg (fun _ _ _ _ => True) (fun _ => Orderly rt) where
  sameUpstream heq h := h.sameUpstream heq
  cycle hprev _ h := refresh_orderly hprev h
  approve h hpa := h.approve hpa

/-! ## What may be served -/

/-- All that the lists have in the snapshot may be served. -/
def Within (T : String → String → Prop) (s : Snapshot) : Prop := ∀ code fp, ActiveIn s code fp → T code fp

/-- Nothing else is served, nor stored to be served by the next process. -/
structure Covered (T : String → String → Prop) (m : Service) : Prop where
  active : ∀ s ∈ m.active, Within T s
  stored : ∀ s ∈ m.store.snapshot, Within T s

namespace Covered

variable {T : String → String → Prop} {m : Service} {next : Snapshot}

theorem activate (h : Covered T m) (hnext : Within T next) (refused : Option String) (cause : Cause) :
    Covered T ((m.saveSnapshot refused next).activate cause next) := by
  refine ⟨?_, ?_⟩
  · intro s hs
    exact Option.some.inj hs ▸ hnext
  · intro s hs
    obtain rfl | hs := Service.mem_saveSnapshot hs
    · exact hnext
    · exact h.stored s hs

theorem fetcher (h : Covered T m) (f : Fetcher) : Covered T { m with fetcher := f } := ⟨h.active, h.stored⟩

theorem reconcileDeclared (h : Covered T m) (d : Service.Declared) : Covered T (m.reconcileDeclared rt cfg d).2 := by
  obtain heq | ⟨prev, next, rep, hprev, hnext, heq⟩ := m.reconcileDeclared_cases d <;> rw [heq]
  · exact h
  · have hwithin : Within T next := by
      intro code fp hactive
      rw [ActiveIn, (refreshDeclared_ok hnext).1.territories] at hactive
      exact h.active prev hprev code fp hactive
    exact h.activate hwithin _ _

/-- Without an automatic release, a cycle on a snapshot adds nothing. -/
theorem refresh (h : Covered T m) (hhold : cfg.activationMode = .hold) (hrelease : cfg.holdAutoRelease ≤ 0)
    (horderly : Holds (fun _ => Orderly rt) m) (hactive : m.active ≠ none) (boot : Bootstrap)
    (inp : Service.RefreshInput) : Covered T (m.refresh rt cfg boot inp).2 := by
  have hfirst : Covered T (m.reconcileDeclared rt cfg inp.declared).2 := h.reconcileDeclared inp.declared
  have hprev : ∀ s ∈ (m.reconcileDeclared rt cfg inp.declared).2.active, Orderly rt s := by
    intro s hs
    obtain ⟨b, -, hs⟩ := (horderly.reconcileDeclared (orderly_stable rt cfg) inp.declared).active s hs
    exact hs
  obtain ⟨e, f, -, heq⟩ | ⟨next, f, hnext, heq⟩ := m.refresh_cases boot inp <;> rw [heq]
  · exact hfirst.fetcher f
  · obtain ⟨p, hp⟩ : ∃ p, (m.reconcileDeclared rt cfg inp.declared).2.active = some p :=
      Option.ne_none_iff_exists'.1 (Service.reconcileDeclared_active hactive inp.declared)
    obtain ⟨res, f₁, ts, -, -, hts, hserved, -⟩ := refresh_hold hhold hprev hnext
    have hwithin : Within T next := by
      intro code fp hnew
      obtain ⟨hlisted, hnone⟩ := (hserved code fp).1 hnew
      rw [hp] at hnone
      obtain hbefore | ⟨first, -, hreleased⟩ := heldSince_eq_none (hprev p hp) (hlisted.slash_notMem hts) hnone
      · exact hfirst.active p hp code fp hbefore
      · exact absurd hreleased.1 (not_lt.2 hrelease)
    unfold Service.activateCycle
    split
    · exact (hfirst.fetcher f).activate hwithin _ _
    · exact ⟨fun s hs => Option.some.inj hs ▸ hwithin, hfirst.stored⟩

/-- An approval adds what it approves. -/
theorem approvePending (h : Covered T m) {fp : String} (hfp : ∀ code, T code fp) (now : Time)
    (refused : Option String) : Covered T (m.approvePending rt fp now refused).2 := by
  obtain ⟨e, heq⟩ | ⟨cur, pa, hcur, hpa, heq⟩ := m.approvePending_cases fp now refused <;> rw [heq]
  · exact h
  · refine h.activate (fun code fp' hactive => ?_) _ _
    rcases listed_moveToTerritory hactive with hbefore | hpair
    · exact h.active cur hcur code fp' hbefore
    · have happroved : pa.anchor.fingerprintSHA256 = fp := by simpa using List.find?_some hpa
      obtain rfl : fp = fp' := happroved.symm.trans (Prod.mk.inj hpair).2
      exact hfp code

theorem restart (h : Covered T m) (st : Service.Startup) : Covered T (m.newProcess.initializeManager st).2 := by
  obtain heq | ⟨b, -, ⟨-, heq⟩ | ⟨s, hs, heq⟩⟩ := m.restart_cases st <;> rw [heq]
  · exact ⟨by simp [Service.newProcess], h.stored⟩
  · exact ⟨by simp [Service.newProcess], h.stored⟩
  · exact ⟨fun s' hs' => Option.some.inj hs' ▸ h.stored s hs, h.stored⟩

theorem step (h : Covered T m) (hhold : cfg.activationMode = .hold) (hrelease : cfg.holdAutoRelease ≤ 0)
    (horderly : Holds (fun _ => Orderly rt) m) (hactive : m.active ≠ none) {op : Op}
    (hop : ∀ fp now refused, op = .approvePending fp now refused → ∀ code, T code fp) :
    Covered T (m.step rt cfg op) := by
  cases op with
  | restart st => exact h.restart st
  | reconcileDeclared d => exact h.reconcileDeclared d
  | refresh inp =>
      unfold Service.step
      cases m.bootstrap with
      | none => exact h
      | some boot => exact h.refresh hhold hrelease horderly hactive boot inp
  | approvePending fp now refused => exact h.approvePending (hop fp now refused rfl) now refused

end Covered

end TrustAnchor.Ingest
