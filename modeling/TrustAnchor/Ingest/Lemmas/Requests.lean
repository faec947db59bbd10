import TrustAnchor.Ingest.Lemmas.Cycle
import TrustAnchor.Ingest.Lemmas.Rotation

/-!
# Which URLs a cycle asks for

A cycle uses the fetcher in three ways: it allows a URL, downloads one and opts one in to plain http. What
these keep for the URLs at hand, the cycle keeps.
-/

namespace TrustAnchor.Ingest

open Lib Tsl Trust

variable {rt : Runtime} {net : Network} {I : Fetcher → Prop} {A D O : String → Prop}

/-! ## Requests -/

/-- The property survives the sending of requests with `S`, and redirects lead to nothing else. -/
structure Sendable (rt : Runtime) (net : Network) (I : Fetcher → Prop) (S : Request → Prop) : Prop where
  send : ∀ {f r}, S r → I f → I { f with sent := f.sent ++ [r] }
  redirect : ∀ {site n url location u}, net site n url = .redirect location →
    rt.parseURL location = .ok u → S ⟨location, u⟩

namespace Sendable

variable {S : Request → Prop}

theorem clientDo (h : Sendable rt net I S) (site : Site) (fuel n : Nat) {raw : String} {u : Url}
    (hfirst : S ⟨raw, u⟩) : Fallible.Keeps I (Fetcher.clientDo rt net site fuel n raw u) := by
  induction fuel generalizing n raw u with
  | zero => exact .fail _
  | succ fuel ih =>
      refine .bind (.modify fun f hf => h.send hfirst hf) fun _ => ?_
      split
      · exact .fail _
      · exact .pure _
      · rename_i location hredirect
        split
        · exact .fail _
        · rename_i v hv
          split_ifs
          · exact .fail _
          · exact .fail _
          · exact ih _ (h.redirect hredirect hv)

/-- A download sends its first request to an allowed host, with a scheme that is in order for it. -/
theorem fetch (h : Sendable rt net I S) {url : String}
    (hfirst : ∀ f u, I f → rt.parseURL url = .ok u → f.schemeOK rt u = true → rt.toLower u.hostname ∈ f.allowed →
      S ⟨url, u⟩) (site : Site) : Fallible.Keeps I (Fetcher.fetch rt net site url) := by
  unfold Fetcher.fetch
  split
  · exact .fail _
  · rename_i u hu
    refine .get_bind fun f hf => ?_
    split_ifs with hscheme hhost
    · exact hf
    · have hS := hfirst f u hf hu (by simpa using hscheme) hhost
      exact Fallible.Keeps.bind (.attempt (h.clientDo site 10 0 hS)) (fun _ => .ofExcept _) f hf
    · exact hf

end Sendable

/-- Allowing a URL with `A`, downloading one with `D` and opting in one with `O` keeps `I`. -/
structure Guarded (rt : Runtime) (net : Network) (I : Fetcher → Prop) (A D O : String → Prop) : Prop where
  allowURL : ∀ {url}, A url → Fallible.Keeps I (Fetcher.allowURL rt url)
  fetch : ∀ {url}, D url → ∀ site, Fallible.Keeps I (Fetcher.fetch rt net site url)
  allowHTTPFor : ∀ {url}, O url → Fallible.Keeps I (Fetcher.allowHTTPFor rt url)

namespace Guarded

/-! ## The list of the lists -/

theorem fetchPivot (h : Guarded rt net I A D O) {ref : PivotRef} (href : A ref.url ∧ D ref.url) :
    Fallible.Keeps I (fetchPivot rt net ref) :=
  .bind (.attempt (h.allowURL href.1)) fun _ => .bind (.ofExcept _) fun _ =>
    .bind (.attempt (h.fetch href.2 _)) fun _ => .ofExcept _

theorem walkPivots (h : Guarded rt net I A D O) {refs : List PivotRef} {last : Nat}
    (hrefs : ∀ ref ∈ refs, last < ref.seq → A ref.url ∧ D ref.url) (signers : List Certificate) :
    Fallible.Keeps I (walkPivots rt net refs signers last) := by
  induction refs generalizing signers last with
  | nil => exact .pure _
  | cons ref refs ih =>
      have hrest := fun r hr => hrefs r (List.mem_cons_of_mem ref hr)
      unfold Ingest.walkPivots
      split_ifs with hold
      · exact ih hrest signers
      · refine .bind (h.fetchPivot (hrefs ref List.mem_cons_self (by omega))) fun raw => ?_
        refine .bind (.ofExcept _) fun next => ih (fun r hr hlt => hrest r hr ?_) next
        omega

theorem digestUnchanged (h : Guarded rt net I A D O) {url : String} (hurl : D (Fetcher.digestURL url))
    (site : Site) (prevFresh : Bool) (last : Option Raw) :
    Fallible.Keeps I (digestUnchanged rt net site url prevFresh last) := by
  unfold Ingest.digestUnchanged
  split
  · exact .pure _
  · split_ifs
    · refine .bind (.attempt (.bind (h.fetch hurl site) fun _ => .pure _)) fun r => ?_
      split <;> exact .pure _
    · exact .pure _

theorem fetchSource (h : Guarded rt net I A D O) {s : EULOTLSource} (hurl : A s.url ∧ D s.url)
    (hdigest : D (Fetcher.digestURL s.url)) (last : Option Raw) :
    Fallible.Keeps I (s.fetch rt net last) := by
  refine .bind (h.allowURL hurl.1) fun _ =>
    .bind (h.digestUnchanged hdigest _ _ _) fun unchanged => ?_
  split_ifs
  · exact .fail _
  · exact .bind (.attempt (h.fetch hurl.2 _)) fun _ => .bind (.ofExcept _) fun _ => .pure _

/-- A list that the pinned set verifies sends `Verify` nowhere. -/
theorem verifySource (h : Guarded rt net I A D O) {s : EULOTLSource} {clock : Time} {raw : Raw}
    {pinned : List Bytes}
    (hpivots : ∀ signers, parseDERCerts rt pinned = .ok signers →
      ¬ VerifiesUnder rt clock raw.bytes signers →
      ∀ ref ∈ advertisedPivots rt raw.bytes, s.pivotSeq < ref.seq → A ref.url ∧ D ref.url) :
    Fallible.Keeps I (s.verify rt clock net raw pinned) := by
  refine .ofExcept_bind fun pre hpre => .ofExcept_bind fun signers hsigners => ?_
  split
  · exact .ofExcept _
  · rename_i verr hv
    have hno : ¬ VerifiesUnder rt clock raw.bytes signers := by
      rintro ⟨r, hr⟩
      rw [hv] at hr
      cases hr
    have hrefs := hpivots signers hsigners hno
    simp only [advertisedPivots, orErr_eq_ok.1 hpre] at hrefs
    exact .bind (.attempt (h.walkPivots hrefs signers)) fun _ => .ofExcept _

end Guarded

/-- When the pinned set does not verify what is downloaded, the pivots that it advertises and that are
not processed have URLs with `P`. -/
def PivotURLs (rt : Runtime) (P : String → Prop) (cfg : Config) (boot : Bootstrap) (cy : Cycle)
    (prev : Option Snapshot) (f : Fetcher) : Prop :=
  ∀ raw g pinned seq signers, fetchLOTL rt cfg cy prev f = (.ok raw, g) →
    pinnedSigners rt prev boot = .ok (pinned, seq) → parseDERCerts rt pinned = .ok signers →
    ¬ VerifiesUnder rt (cy.clock .lotl) raw.bytes signers →
    ∀ ref ∈ advertisedPivots rt raw.bytes, seq < ref.seq → P ref.url

namespace Guarded

variable {cfg : Config} {cy : Cycle} {prev : Option Snapshot} {boot : Bootstrap} {f : Fetcher}

theorem ingestLOTL (h : Guarded rt cy.net I A D O) (hurl : A cfg.lotlURL ∧ D cfg.lotlURL)
    (hdigest : D (Fetcher.digestURL cfg.lotlURL))
    (hpivots : PivotURLs rt (fun url => A url ∧ D url) cfg boot cy prev f) (hf : I f) :
    I (ingestLOTL rt cfg cy prev boot f).2 := by
  have hfetch : I (fetchLOTL rt cfg cy prev f).2 :=
    h.fetchSource (s := lotlSource cfg cy.now prev) hurl hdigest _ f hf
  simp only [Ingest.ingestLOTL, Fallible.attempt_bind_run]
  rcases hraw : fetchLOTL rt cfg cy prev f with ⟨e | raw, g⟩ <;> rw [hraw] at hfetch
  · exact hfetch
  · have hverify : Fallible.Keeps I (verifyLOTL rt cfg cy prev boot raw) := by
      refine .ofExcept_bind fun r hpinned => .bind ?_ fun _ => .pure _
      exact h.verifySource fun signers hsigners hno =>
        hpivots raw g r.1 r.2 signers hraw hpinned hsigners hno
    exact hverify g hfetch

/-! ## Territories -/

theorem fetchNational (h : Guarded rt net I A D O) {s : NationalTLSource} (hurl : A s.url ∧ D s.url)
    (hdigest : D (Fetcher.digestURL s.url)) (hoptIn : s.allowHTTP = true → O s.url) (last : Option Raw) :
    Fallible.Keeps I (s.fetch rt net last) := by
  have hfirst : Fallible.Keeps I (s.optInHTTP rt) := by
    unfold NationalTLSource.optInHTTP
    split_ifs with hallow
    · exact h.allowHTTPFor (hoptIn hallow)
    · exact .pure _
  refine .bind hfirst fun _ => .bind (h.allowURL hurl.1) fun _ =>
    .bind (h.digestUnchanged hdigest _ _ _) fun unchanged => ?_
  split_ifs
  · exact .fail _
  · exact .bind (h.fetch hurl.2 _) fun _ => .pure _

variable {ps : PointerSet}

/-- What the pointer of the territory has to be like. -/
structure Pointed (A D O : String → Prop) (cfg : Config) (ps : PointerSet) (code : String) : Prop where
  url : ∀ lp, ps.pointerFor code = .ok lp → A lp.url ∧ D lp.url
  digest : ∀ lp, ps.pointerFor code = .ok lp → D (Fetcher.digestURL lp.url)
  optIn : ∀ lp, ps.pointerFor code = .ok lp → cfg.allowsHTTP code = true → O lp.url

theorem ingestTerritory (h : Guarded rt cy.net I A D O) {code : String} (hps : Pointed A D O cfg ps code) :
    Fallible.Keeps I (ingestTerritory rt cfg cy ps code prev) := by
  refine .bind (.attempt ?_) fun r => ?_
  · refine .ofExcept_bind fun lp hlp => .bind (.attempt ?_) fun r => ?_
    · exact h.fetchNational (s := nationalTLSource cfg cy.now code lp (prev.bind (·.territory code)))
        (hps.url lp hlp) (hps.digest lp hlp) (hps.optIn lp hlp) _
    · split <;> exact .ofExcept _
  · split
    · exact .pure _
    · exact .ofExcept _

theorem ingestTerritories (h : Guarded rt cy.net I A D O) (hps : ∀ code, Pointed A D O cfg ps code)
    (codes : List String) : Fallible.Keeps I (ingestTerritories rt cfg cy ps prev codes) := by
  induction codes with
  | nil => exact .pure _
  | cons code codes ih =>
      refine .bind (.attempt (h.ingestTerritory (hps code))) fun r => ?_
      split <;> exact .bind ih fun _ => .pure _

end Guarded

/-! ## The cycle -/

/-- A cycle is the list of the lists and then the territories of its pointers. -/
theorem refresh_keeps {cfg : Config} {cy : Cycle} {prev : Option Snapshot} {boot : Bootstrap} {f : Fetcher}
    (hlotl : I (ingestLOTL rt cfg cy prev boot f).2)
    (hts : ∀ res f₁, ingestLOTL rt cfg cy prev boot f = (.ok res, f₁) →
      ∀ codes, I (ingestTerritories rt cfg cy res.pointers prev codes f₁).2) :
    I (refresh rt cfg cy prev boot f).2 := by
  unfold refresh
  rw [Fallible.bind_run]
  rcases hres : ingestLOTL rt cfg cy prev boot f with ⟨e | res, f₁⟩ <;> rw [hres] at hlotl
  · exact hlotl
  · simp only
    rw [Fallible.bind_run]
    cases checkSequence prev res with
    | error e => exact hlotl
    | ok u =>
        have hassemble : (assemble rt cfg cy prev boot res f₁).2 = (ingestTerritories rt cfg cy res.pointers
            prev (expandTerritories cfg.territories res.pointers) f₁).2 := by
          refine Fallible.bind_keeps (π := id) (fun r g => ?_) f₁
          simp only
          split_ifs <;> rfl
        change I (assemble rt cfg cy prev boot res f₁).2
        rw [hassemble]
        exact hts res f₁ hres _

theorem loopFetchers_keeps {cfg : Config} {cy : Cycle} {prev : Option Snapshot} {ps : PointerSet}
    (hkeeps : ∀ code, Fallible.Keeps I (ingestTerritory rt cfg cy ps code prev)) {codes : List String}
    {f : Fetcher} (hf : I f) {code : String} {g : Fetcher}
    (hg : (code, g) ∈ loopFetchers rt cfg cy ps prev codes f) : I g := by
  induction codes generalizing f with
  | nil => cases hg
  | cons c codes ih =>
      rcases List.mem_cons.1 hg with heq | hg
      · cases heq
        exact hf
      · exact ih (hkeeps c f hf) hg

end TrustAnchor.Ingest
