import TrustAnchor.Ingest.Lemmas.Cycle

/-!
# Two cycles side by side

The territories share one fetcher. What a territory does to its rules is settled before anything is
downloaded for it, so the answers that one territory gets never reach another one.
-/

namespace TrustAnchor.Ingest

open Lib Tsl Trust

variable {rt : Runtime} {cfg : Config} {cy cy' : Cycle} {prev : Option Snapshot} {boot : Bootstrap}

/-- The two cycles meet the same for the list of the lists and its pivots. -/
structure SameLOTL (cy cy' : Cycle) : Prop where
  now : cy.now = cy'.now
  clock : cy.clock .lotl = cy'.clock .lotl
  digest : cy.net .lotlDigest = cy'.net .lotlDigest
  list : cy.net .lotl = cy'.net .lotl
  pivot : ∀ seq, cy.net (.pivot seq) = cy'.net (.pivot seq)

/-- The two cycles meet the same for the list of the territory. -/
structure SameTL (code : String) (cy cy' : Cycle) : Prop where
  clock : cy.clock (.tl code) = cy'.clock (.tl code)
  digest : cy.net (.tlDigest code) = cy'.net (.tlDigest code)
  list : cy.net (.tl code) = cy'.net (.tl code)

theorem digestUnchanged_agree {net net' : Network} {site : Site} (hnet : net site = net' site)
    (url : String) (prevFresh : Bool) (last : Option Raw) :
    Fallible.Agree Fetcher.SameRules (digestUnchanged rt net site url prevFresh last)
      (digestUnchanged rt net' site url prevFresh last) := by
  unfold digestUnchanged
  split
  · exact .pure _
  · split_ifs
    · refine .bind (.attempt (Fetcher.fetchDigest_agree hnet url)) fun r => ?_
      cases r <;> exact .pure _
    · exact .pure _

/-! ## The list of the lists -/

theorem EULOTLSource.fetch_agree (h : SameLOTL cy cy') (s : EULOTLSource) (last : Option Raw) :
    Fallible.Agree Fetcher.SameRules (s.fetch rt cy.net last) (s.fetch rt cy'.net last) := by
  refine .bind (Fetcher.allowURL_agree _) fun _ =>
    .bind (digestUnchanged_agree h.digest _ _ _) fun unchanged => ?_
  split_ifs
  · exact .fail _
  · exact .bind (.attempt (Fetcher.fetch_agree h.list _)) fun _ => .bind (.ofExcept _) fun _ => .pure _

theorem fetchPivot_agree (h : SameLOTL cy cy') (ref : PivotRef) :
    Fallible.Agree Fetcher.SameRules (fetchPivot rt cy.net ref) (fetchPivot rt cy'.net ref) :=
  .bind (.attempt (Fetcher.allowURL_agree _)) fun _ => .bind (.ofExcept _) fun _ =>
    .bind (.attempt (Fetcher.fetch_agree (h.pivot _) _)) fun _ => .ofExcept _

theorem walkPivots_agree (h : SameLOTL cy cy') (refs : List PivotRef) (signers : List Certificate)
    (last : Nat) :
    Fallible.Agree Fetcher.SameRules (walkPivots rt cy.net refs signers last)
      (walkPivots rt cy'.net refs signers last) := by
  induction refs generalizing signers last with
  | nil => exact .pure _
  | cons ref refs ih =>
      unfold walkPivots
      split_ifs
      · exact ih signers last
      · exact .bind (fetchPivot_agree h ref) fun _ => .bind (.ofExcept _) fun next => ih next ref.seq

theorem EULOTLSource.verify_agree (h : SameLOTL cy cy') (s : EULOTLSource) (clock : Time) (raw : Raw)
    (pinned : List Bytes) :
    Fallible.Agree Fetcher.SameRules (s.verify rt clock cy.net raw pinned)
      (s.verify rt clock cy'.net raw pinned) := by
  refine .bind (.ofExcept _) fun pre => .bind (.ofExcept _) fun signers => ?_
  split
  · exact .ofExcept _
  · exact .bind (.attempt (walkPivots_agree h _ _ _)) fun _ => .ofExcept _

theorem ingestLOTL_agree (h : SameLOTL cy cy') :
    Fallible.Agree Fetcher.SameRules (ingestLOTL rt cfg cy prev boot)
      (ingestLOTL rt cfg cy' prev boot) := by
  have hfetch : Fallible.Agree Fetcher.SameRules (fetchLOTL rt cfg cy prev) (fetchLOTL rt cfg cy' prev) := by
    unfold fetchLOTL
    rw [h.now]
    exact EULOTLSource.fetch_agree h _ _
  refine .bind (.attempt hfetch) fun r => ?_
  cases r with
  | error e => exact .ofExcept _
  | ok raw =>
      unfold verifyLOTL
      rw [h.now, h.clock]
      exact .bind (.ofExcept _) fun _ => .bind (EULOTLSource.verify_agree h _ _ _ _) fun _ => .pure _

/-! ## Territories -/

theorem NationalTLSource.optInHTTP_agree (s : NationalTLSource) :
    Fallible.Agree Fetcher.SameRules (s.optInHTTP rt) (s.optInHTTP rt) := by
  unfold optInHTTP
  split_ifs
  · exact Fetcher.allowHTTPFor_agree _
  · exact .pure _

theorem NationalTLSource.fetch_agree {s : NationalTLSource} (h : SameTL s.code cy cy')
    (last : Option Raw) :
    Fallible.Agree Fetcher.SameRules (s.fetch rt cy.net last) (s.fetch rt cy'.net last) := by
  refine .bind s.optInHTTP_agree fun _ => .bind (Fetcher.allowURL_agree _) fun _ =>
    .bind (digestUnchanged_agree h.digest _ _ _) fun unchanged => ?_
  split_ifs
  · exact .fail _
  · exact .bind (Fetcher.fetch_agree h.list _) fun _ => .pure _

theorem ingestTerritory_agree (hnow : cy.now = cy'.now) {code : String} (h : SameTL code cy cy')
    (ps : PointerSet) :
    Fallible.Agree Fetcher.SameRules (ingestTerritory rt cfg cy ps code prev)
      (ingestTerritory rt cfg cy' ps code prev) := by
  refine .bind (.attempt (.bind (.ofExcept _) fun lp => ?_)) fun r => ?_
  · have hfetch : Fallible.Agree Fetcher.SameRules
        (fetchTL rt cfg cy code lp (prev.bind (·.territory code)))
        (fetchTL rt cfg cy' code lp (prev.bind (·.territory code))) := by
      unfold fetchTL
      rw [hnow]
      exact NationalTLSource.fetch_agree h _
    refine .bind (.attempt hfetch) fun r => ?_
    rw [hnow, h.clock]
    cases r <;> exact .ofExcept _
  · cases r with
    | error e => exact .ofExcept _
    | ok t => exact .pure _

/-! ## Answers do not touch the rules -/

theorem digestUnchanged_rules {r : Fetcher} (net : Network) (site : Site) (url : String)
    (prevFresh : Bool) (last : Option Raw) :
    Fallible.Keeps (fun g => g.rules = r) (digestUnchanged rt net site url prevFresh last) := by
  unfold digestUnchanged
  split
  · exact .pure _
  · split_ifs
    · refine .bind (.attempt fun g hg => ?_) fun a => ?_
      · rw [Fetcher.fetchDigest_rules, hg]
      · split <;> exact .pure _
    · exact .pure _

theorem NationalTLSource.fetch_sameEffect (s : NationalTLSource) (net net' : Network)
    (last : Option Raw) :
    Fallible.SameEffect Fetcher.SameRules (s.fetch rt net last) (s.fetch rt net' last) := by
  refine .bind s.optInHTTP_agree fun _ => .bind (Fetcher.allowURL_agree _) fun _ f g h => ?_
  -- both downloads leave the rules as they found them
  have hrest : ∀ (nt : Network) (r : Fetcher), Fallible.Keeps (fun k => k.rules = r) (do
      if ← digestUnchanged rt nt (.tlDigest s.code) s.url s.prevFresh last then .fail .errUnchanged
      else do
        let raw ← Fetcher.fetch rt nt (.tl s.code) s.url
        return ⟨raw, rt.sha256hex raw⟩ : Fetching Raw) := by
    intro nt r
    refine .bind (digestUnchanged_rules _ _ _ _ _) fun unchanged => ?_
    split_ifs
    · exact .fail _
    · refine .bind (fun k hk => ?_) fun _ => .pure _
      rw [Fetcher.fetch_rules, hk]
  exact (hrest net _ f rfl).trans (h.trans (hrest net' _ g rfl).symm)

theorem ingestTerritory_sameEffect (hnow : cy.now = cy'.now) (ps : PointerSet) (code : String) :
    Fallible.SameEffect Fetcher.SameRules (ingestTerritory rt cfg cy ps code prev)
      (ingestTerritory rt cfg cy' ps code prev) := by
  have hfetch : ∀ lp, Fallible.SameEffect Fetcher.SameRules
      (fetchTL rt cfg cy code lp (prev.bind (·.territory code)))
      (fetchTL rt cfg cy' code lp (prev.bind (·.territory code))) := by
    intro lp
    unfold fetchTL
    rw [hnow]
    exact NationalTLSource.fetch_sameEffect _ _ _ _
  refine .bind_of_eq (.attempt (.bind (.ofExcept _) fun lp => ?_)) ?_ ?_
  · refine .bind_of_eq (.attempt (hfetch lp)) ?_ ?_ <;> rintro (e | raw) s <;> rfl
  · rintro (e | t) s <;> rfl
  · rintro (e | t) s <;> rfl

/-- The loop of one cycle finds the fetcher as the loop of the other does. -/
theorem loopFetchers_sameRules (hnow : cy.now = cy'.now) (ps : PointerSet) {codes : List String}
    {f f' : Fetcher} (h : f.SameRules f') {code : String} {g : Fetcher}
    (hg : (code, g) ∈ loopFetchers rt cfg cy ps prev codes f) :
    ∃ g', (code, g') ∈ loopFetchers rt cfg cy' ps prev codes f' ∧ g.SameRules g' := by
  induction codes generalizing f f' with
  | nil => cases hg
  | cons c codes ih =>
      rcases List.mem_cons.1 hg with heq | hg
      · obtain ⟨rfl, rfl⟩ := Prod.mk.inj heq
        exact ⟨f', List.mem_cons_self, h⟩
      · obtain ⟨g', hg', hrules⟩ := ih (ingestTerritory_sameEffect hnow ps c f f' h) hg
        exact ⟨g', List.mem_cons_of_mem _ hg', hrules⟩

end TrustAnchor.Ingest
