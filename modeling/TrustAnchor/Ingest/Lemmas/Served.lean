import TrustAnchor.Ingest.Lemmas.WellFormed

/-!
# What bundles show of a snapshot

All queries together show every anchor at its place, and nothing else.
-/

namespace TrustAnchor.Ingest

open Lib Tsl Trust

variable {rt : Runtime} {s s' : Snapshot}

/-- What a bundle is read off: the entries with anchors, and the declared set. -/
def servedPart (s : Snapshot) : List (String × List Anchor) × List Anchor :=
  ((s.territories.filter fun t => t.anchors ≠ []).map fun t => (t.code, t.anchors), s.internal)

theorem filter_eq_of_servedPart (h : servedPart s = servedPart s') (q : Query) : filter rt s q = filter rt s' q := by
  have hread : ∀ s : Snapshot, ((s.territories.filter fun t => q.includes rt t.code).flatMap fun t =>
      t.anchors.filter q.admits) =
      ((servedPart s).1.filter fun e => q.includes rt e.1).flatMap fun e => e.2.filter q.admits := by
    intro s
    rw [servedPart, List.filter_map, List.flatMap_map, List.filter_comm]
    refine (flatMap_filter_of_eq_nil fun t _ hnil => ?_).symm
    have hanchors : t.anchors = [] := by simpa using hnil
    simp [hanchors]
  have hinternal : s.internal = s'.internal := congrArg Prod.snd h
  rw [filter, filter, hread s, hread s', h, hinternal]

/-! ## Places and bundles -/

theorem servedPart_sortedGroups (h : WellFormed rt s) :
    SortedGroups anchorLe Anchor.fingerprintSHA256 (servedPart s).1 where
  codes := by
    rw [servedPart, List.map_map]
    exact h.codes.sublist (List.filter_sublist.map _)
  nonempty e he := by
    obtain ⟨t, ht, rfl⟩ := List.mem_map.1 he
    simpa using (List.mem_filter.1 ht).2
  sorted e he := by
    obtain ⟨t, ht, rfl⟩ := List.mem_map.1 he
    exact (h.entries t (List.mem_filter.1 ht).1).sorted
  keys e he := by
    obtain ⟨t, ht, rfl⟩ := List.mem_map.1 he
    exact h.orderly.entries.fingerprints t (List.mem_filter.1 ht).1

theorem mem_servedPart {code : String} {a : Anchor} :
    (∃ as, (code, as) ∈ (servedPart s).1 ∧ a ∈ as) ↔
      (.listed code a.fingerprintSHA256, a) ∈ placed (some s) := by
  simp only [servedPart, List.mem_map, List.mem_filter, Prod.mk.injEq, mem_placed, decide_eq_true_eq]
  constructor
  · rintro ⟨-, ⟨t, ⟨ht, -⟩, rfl, rfl⟩, ha⟩
    exact .inl ⟨t, ht, ha, rfl⟩
  · rintro (⟨t, ht, ha, heq⟩ | ⟨-, heq⟩)
    · obtain ⟨rfl, -⟩ := Place.listed.inj heq
      exact ⟨t.anchors, ⟨t, ⟨ht, List.ne_nil_of_mem ha⟩, rfl, rfl⟩, ha⟩
    · cases heq

theorem mem_internal_iff_placed {a : Anchor} :
    a ∈ s.internal ↔ (.declared a.fingerprintSHA256 a.type, a) ∈ placed (some s) := by
  rw [mem_placed]
  constructor
  · exact fun ha => .inr ⟨ha, rfl⟩
  · rintro (⟨t, -, -, heq⟩ | ⟨ha, -⟩)
    · cases heq
    · exact ha

theorem internal_eq_of_placed (hs : WellFormed rt s) (hs' : WellFormed rt s')
    (h : ∀ e, e ∈ placed (some s) ↔ e ∈ placed (some s')) : s.internal = s'.internal := by
  refine eq_of_internalLt hs.internalSorted hs'.internalSorted fun a => ?_
  rw [mem_internal_iff_placed, mem_internal_iff_placed, h]

theorem servedPart_eq_of_placed (hs : WellFormed rt s) (hs' : WellFormed rt s')
    (h : ∀ e, e ∈ placed (some s) ↔ e ∈ placed (some s')) : servedPart s = servedPart s' := by
  refine Prod.ext ?_ (internal_eq_of_placed hs hs' h)
  refine SortedGroups.eq (fun a b hab hba => anchorLe_antisymm hab hba) (servedPart_sortedGroups hs)
    (servedPart_sortedGroups hs') fun c a => ?_
  rw [mem_servedPart, mem_servedPart, h]

theorem mem_served_iff_placed {a : Anchor} : a ∈ s.served ↔ ∃ π, (π, a) ∈ placed (some s) := by
  simp only [Snapshot.served, List.mem_append, List.mem_flatMap, mem_placed]
  constructor
  · rintro (⟨t, ht, ha⟩ | ha)
    · exact ⟨_, .inl ⟨t, ht, ha, rfl⟩⟩
    · exact ⟨_, .inr ⟨ha, rfl⟩⟩
  · rintro ⟨π, ⟨t, ht, ha, -⟩ | ⟨ha, -⟩⟩
    · exact .inl ⟨t, ht, ha⟩
    · exact .inr ha

theorem WellFormed.place_eq (h : WellFormed rt s) {π : Place} {a : Anchor} (hπ : (π, a) ∈ placed (some s)) :
    π = if a.source = sourceInternal then .declared a.fingerprintSHA256 a.type
      else .listed a.territory a.fingerprintSHA256 := by
  obtain ⟨t, ht, ha, rfl⟩ | ⟨ha, rfl⟩ := mem_placed.1 hπ
  · obtain ⟨hterritory, hsource, -⟩ := h.orderly.entries.anchors t ht a ha
    rw [hsource, if_neg (by decide), hterritory]
  · rw [(h.internal a ha).source, if_pos rfl]

theorem WellFormed.type_of_placed (h : WellFormed rt s) {π : Place} {a : Anchor}
    (ha : (π, a) ∈ placed (some s)) : a.type = "" ∨ validAnchorType a.type := by
  obtain ⟨t, ht, ha, -⟩ | ⟨ha, -⟩ := mem_placed.1 ha
  · exact ((h.entries t ht).readable a ha).type
  · exact (h.internal a ha).type

/-- Two snapshots answer every query alike exactly if they have the same anchors at the same places. -/
theorem filter_eq_iff_placed (hs : WellFormed rt s) (hs' : WellFormed rt s') :
    (∀ q, filter rt s q = filter rt s' q) ↔ ∀ e, e ∈ placed (some s) ↔ e ∈ placed (some s') := by
  constructor
  · have hsub : ∀ {u u' : Snapshot}, WellFormed rt u → WellFormed rt u' → (∀ q, filter rt u q = filter rt u' q) →
        ∀ e ∈ placed (some u), e ∈ placed (some u') := by
      rintro u u' hu hu' heq ⟨π, a⟩ ha
      have htype := hu.type_of_placed ha
      have hbundle := heq (typeQuery a.type)
      rw [filter_typeQuery htype, filter_typeQuery htype, Except.ok.injEq] at hbundle
      have hmem : a ∈ u.served.filter fun b => b.type = a.type :=
        List.mem_filter.2 ⟨mem_served_iff_placed.2 ⟨π, ha⟩, by simp⟩
      rw [hbundle] at hmem
      obtain ⟨π', ha'⟩ := mem_served_iff_placed.1 (List.mem_filter.1 hmem).1
      rw [hu.place_eq ha, ← hu'.place_eq ha']
      exact ha'
    exact fun heq e => ⟨hsub hs hs' heq e, hsub hs' hs (fun q => (heq q).symm) e⟩
  · exact fun h => filter_eq_of_servedPart (servedPart_eq_of_placed hs hs' h)

theorem exists_filter_ok {q : Query} {b : List Anchor} (h : filter rt s q = .ok b) (s' : Snapshot) :
    ∃ b', filter rt s' q = .ok b' := ⟨_, filter_of_valid (filter_eq_ok.1 h).1⟩

/-! ## Equal ids -/

theorem WellFormed.idContent_eq (hsha : Function.Injective rt.sha256) (hjson : Function.Injective rt.marshalID)
    (hs : WellFormed rt s) (hs' : WellFormed rt s') (h : s.id = s'.id) : idContent s = idContent s' := by
  rw [hs.id, hs'.id] at h
  exact hjson (hsha (hexEncode_injective h))

theorem WellFormed.places_eq (hsha : Function.Injective rt.sha256) (hjson : Function.Injective rt.marshalID)
    (hs : WellFormed rt s) (hs' : WellFormed rt s') (h : s.id = s'.id) (π : Place) :
    π ∈ places (some s) ↔ π ∈ places (some s') := by
  have hplaced := (anchorPart_eq_iff hs.arranged hs'.arranged).1 (by rw [hs.idContent_eq hsha hjson hs' h])
  have hread : ∀ u : Snapshot, π ∈ places (some u) ↔ ∃ i, (π, i) ∈ idPlaced u := by
    intro u
    simp [places, idPlaced]
  simp only [hread, hplaced]

/-- A bundle can be read off the projected anchors. -/
theorem bundle_eq_of_anchorPart {c c' : IDContent} (h : c.anchorPart = c'.anchorPart) (q : Query)
    (common : String → Bool) : c.bundle rt q common = c'.bundle rt q common := by
  have hread : ∀ c : IDContent, c.bundle rt q common =
      ((c.anchorPart.1.filter fun e => q.includes rt e.1).flatMap fun e =>
        (e.2.filter (q.admitsID common)).map IDAnchor.fingerprint) ++
      (c.anchorPart.2.filter (q.admitsID common)).map IDAnchor.fingerprint := by
    intro c
    rw [IDContent.anchorPart, List.filter_map, List.flatMap_map, List.filter_comm]
    refine congrArg (· ++ _) (flatMap_filter_of_eq_nil fun t _ hnil => ?_).symm
    have hanchors : t.anchors = [] := by simpa using hnil
    simp [hanchors]
  rw [hread c, hread c', h]

theorem bundle_perm_of_anchorPart (hsha : Function.Injective rt.sha256) (hs : WellFormed rt s)
    (hs' : WellFormed rt s') (h : (idContent s).anchorPart = (idContent s').anchorPart) {q : Query}
    {b b' : List Anchor} (hb : filter rt s q = .ok b) (hb' : filter rt s' q = .ok b') :
    (b.map Anchor.fingerprintSHA256).Perm (b'.map Anchor.fingerprintSHA256) := by
  obtain ⟨common, hcommon⟩ := exists_common hsha (spkiAlgorithm rt)
  have hbundle := filter_perm_bundle (hcommon s hs.built) hs.built.failed hb
  have hbundle' := filter_perm_bundle (hcommon s' hs'.built) hs'.built.failed hb'
  rw [bundle_eq_of_anchorPart h] at hbundle
  exact hbundle.trans hbundle'.symm

/-- Two snapshots with one id serve the same certificates. -/
theorem certs_perm (hsha : Function.Injective rt.sha256) (hjson : Function.Injective rt.marshalID)
    (hs : WellFormed rt s) (hs' : WellFormed rt s') (hid : s.id = s'.id) {q : Query} {b b' : List Anchor}
    (hb : filter rt s q = .ok b) (hb' : filter rt s' q = .ok b') :
    (b.map Anchor.certDER).Perm (b'.map Anchor.certDER) := by
  have hfps : ∀ {u : Snapshot} {c : List Anchor}, WellFormed rt u → filter rt u q = .ok c →
      c.map Anchor.fingerprintSHA256 = (c.map Anchor.certDER).map rt.sha256hex := by
    intro u c hu hc
    obtain ⟨-, rfl⟩ := filter_eq_ok.1 hc
    rw [List.map_map]
    refine List.map_congr_left fun a ha => hu.built.fingerprint a ?_
    exact mem_served_of_inScope (List.mem_filter.1 ha).1
  have hcontent := hs.idContent_eq hsha hjson hs' hid
  have hperm := bundle_perm_of_anchorPart hsha hs hs' (by rw [hcontent]) hb hb'
  rw [hfps hs hb, hfps hs' hb'] at hperm
  exact (List.map_perm_map_iff (hexEncode_injective.comp hsha)).1 hperm

end TrustAnchor.Ingest
