import TrustAnchor.Trust.Snapshot

/-!
# What a query returns

A query that can be asked returns the anchors in its scope that it admits, in the order of the snapshot.
-/

namespace TrustAnchor.Trust

/-- Everything the snapshot serves. -/
def Snapshot.served (s : Snapshot) : List Anchor := s.territories.flatMap (·.anchors) ++ s.internal

/-- The anchors of the territories that the query includes, and the declared ones. -/
def Snapshot.inScope (rt : Runtime) (s : Snapshot) (q : Query) : List Anchor :=
  (s.territories.filter fun t => q.includes rt t.code).flatMap (·.anchors) ++ s.internal

/-- The use, the type and the keys are ones that a request can name. -/
structure Query.Valid (q : Query) : Prop where
  use : validUse q.use = true
  type : q.anchorType = "" ∨ validAnchorType q.anchorType = true
  keys : validKeys q.keys = true

variable {rt : Runtime} {s : Snapshot} {q : Query} {bundle : List Anchor} {a : Anchor}

theorem mem_served_territory {t : Territory} (ht : t ∈ s.territories) (ha : a ∈ t.anchors) : a ∈ s.served :=
  List.mem_append_left _ (List.mem_flatMap.2 ⟨t, ht, ha⟩)

theorem mem_served_of_inScope (ha : a ∈ s.inScope rt q) : a ∈ s.served := by
  rcases List.mem_append.1 ha with ha | ha
  · obtain ⟨t, ht, ha⟩ := List.mem_flatMap.1 ha
    exact mem_served_territory (List.mem_filter.1 ht).1 ha
  · exact List.mem_append_right _ ha

/-- What `Filter` returns, and when. -/
theorem filter_eq_ok : filter rt s q = .ok bundle ↔ q.Valid ∧ bundle = (s.inScope rt q).filter q.admits := by
  unfold filter
  have hread : ((s.territories.filter fun t => q.includes rt t.code).flatMap fun t => t.anchors.filter q.admits) ++
      s.internal.filter q.admits = (s.inScope rt q).filter q.admits := by
    rw [Snapshot.inScope, List.filter_append, List.filter_flatMap]
  rw [hread]
  split_ifs with huse htype hkeys
  · simp only [false_iff, not_and]
    intro hq
    simp [hq.use] at huse
  · simp only [false_iff, not_and]
    intro hq
    rcases hq.type with hnone | hvalid
    · simp [hnone] at htype
    · simp [hvalid] at htype
  · simp only [false_iff, not_and]
    intro hq
    simp [hq.keys] at hkeys
  · have hq : q.Valid := ⟨by simpa using huse, by simpa [or_iff_not_imp_left] using htype, by simpa using hkeys⟩
    rw [Except.ok.injEq, eq_comm, and_iff_right hq]

theorem filter_of_valid (hq : q.Valid) : filter rt s q = .ok ((s.inScope rt q).filter q.admits) :=
  filter_eq_ok.2 ⟨hq, rfl⟩

/-- The query without any restriction. -/
def everything : Query := { territories := [], use := "", qscdOnly := false, anchorType := "", keys := "" }

/-! ## Types -/

/-- The query for one type, with no other restriction. -/
def typeQuery (type : String) : Query :=
  { territories := [], use := "", qscdOnly := false, anchorType := type, keys := keysAll }

theorem typeQuery_valid {type : String} (h : type = "" ∨ validAnchorType type = true) : (typeQuery type).Valid :=
  ⟨rfl, h, rfl⟩

theorem typeQuery_admits (type : String) : (typeQuery type).admits = fun a => decide (a.type = type) := by
  funext a
  change (decide (a.type = type) && (!false || a.qcWithQSCD) && a.matchesUse "" &&
    (decide (keysAll = keysAll) || a.keyCommon)) = decide (a.type = type)
  simp [Anchor.matchesUse]

/-- The bundle of a type is everything of the type. -/
theorem filter_typeQuery {type : String} (h : type = "" ∨ validAnchorType type = true) :
    filter rt s (typeQuery type) = .ok (s.served.filter fun a => a.type = type) := by
  rw [filter_of_valid (typeQuery_valid h), typeQuery_admits]
  simp [Snapshot.inScope, Snapshot.served, Query.includes, typeQuery]

/-! ## Keys -/

/-- The keys of a query only decide whether all kinds of keys are returned. -/
theorem admits_keysAll : { q with keys := keysAll }.admits a = q.matches a := by
  simp [Query.admits, Query.matches]

theorem admits_of_ne_keysAll (h : q.keys ≠ keysAll) : q.admits a = (q.matches a && a.keyCommon) := by
  simp [Query.admits, h]

end TrustAnchor.Trust
