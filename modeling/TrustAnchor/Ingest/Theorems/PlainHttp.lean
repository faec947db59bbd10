import TrustAnchor.Ingest.Lemmas.Egress
import TrustAnchor.Ingest.Symbolic

/-!
# Plain http

The opt-in to plain http is meant for the lists of named territories. It is recorded for their hosts, and
whatever else is asked for there may go over plain http too.
-/

namespace TrustAnchor.Ingest

open Lib Tsl Trust

variable {rt : Runtime} {H P : String → Prop} {f₀ f : Fetcher}

/-! ## The fetcher -/

/-- Since `f₀`, plain http requests were sent for URLs with `P` only. -/
def HttpSent (f₀ : Fetcher) (P : String → Prop) (f : Fetcher) : Prop :=
  ∃ new, f.sent = f₀.sent ++ new ∧ ∀ r ∈ new, r.url.scheme = "http" → P r.raw

/-- Besides, only hosts with `H` are opted in. -/
structure HttpSince (f₀ : Fetcher) (H P : String → Prop) (f : Fetcher) : Prop where
  opted : ∀ host ∈ f.httpAllowed, H host
  sent : HttpSent f₀ P f

/-- The URL is not a plain http one on a host with `H`. -/
def NotHttpOn (rt : Runtime) (H : String → Prop) (url : String) : Prop :=
  ∀ u, rt.parseURL url = .ok u → u.scheme = "http" → ¬ H (rt.toLower u.hostname)

/-- No redirect leads to plain http. -/
def NoHttpRedirects (rt : Runtime) (net : Network) : Prop :=
  ∀ site n url location, net site n url = .redirect location →
    ∀ u, rt.parseURL location = .ok u → u.scheme ≠ "http"

theorem HttpSince.refl (h : ∀ host ∈ f.httpAllowed, H host) : HttpSince f H P f :=
  ⟨h, [], by simp⟩

theorem HttpSince.mono {H' P' : String → Prop} (h : HttpSince f₀ H P f) (hH : ∀ host, H host → H' host)
    (hP : ∀ url, P url → P' url) : HttpSince f₀ H' P' f := by
  obtain ⟨new, hsent, hnew⟩ := h.sent
  exact ⟨fun host hhost => hH host (h.opted host hhost), new, hsent,
    fun r hr hhttp => hP _ (hnew r hr hhttp)⟩

theorem httpSince_guarded {net : Network} (hnet : NoHttpRedirects rt net) :
    Guarded rt net (HttpSince f₀ H P) (fun _ => True) (fun url => NotHttpOn rt H url ∨ P url)
      (HostOf rt H) := by
  have hsend : Sendable rt net (HttpSince f₀ H P) fun r => r.url.scheme = "http" → P r.raw := by
    refine ⟨fun {f r} hr hf => ⟨hf.opted, ?_⟩, fun hredirect hu hhttp => ?_⟩
    · obtain ⟨new, hsent, hnew⟩ := hf.sent
      refine ⟨new ++ [r], by simp [hsent], fun r' hr' => ?_⟩
      rcases List.mem_append.1 hr' with hr' | hr'
      · exact hnew r' hr'
      · rw [List.mem_singleton.1 hr']
        exact hr
    · exact absurd hhttp (hnet _ _ _ _ hredirect _ hu)
  refine ⟨fun {url} _ f hf => ?_, fun {url} hurl => hsend.fetch fun f u hf hu hscheme _ hhttp => ?_,
    fun {url} hurl => ?_⟩
  · rw [Fetcher.allowURL_run]
    split
    · exact hf
    · split_ifs <;> exact ⟨hf.opted, hf.sent⟩
  · -- a plain http scheme is in order for an opted-in host only
    simp only at hhttp
    have hopted : H (rt.toLower u.hostname) := by
      refine hf.opted _ ?_
      simpa [Fetcher.schemeOK, hhttp] using hscheme
    exact hurl.resolve_left fun hnot => hnot u hu hhttp hopted
  · unfold Fetcher.allowHTTPFor
    split
    · exact .fail _
    · rename_i u hu
      split_ifs
      · exact .fail _
      · refine .modify fun f hf => ⟨fun host hhost => ?_, hf.sent⟩
        rcases List.mem_insert_iff.1 hhost with rfl | hhost
        · exact hurl u hu
        · exact hf.opted host hhost

/-! ## One cycle -/

section Cycle

variable {cfg : Config} {boot : Bootstrap} {cy : Cycle} {prev : Option Snapshot} {ps : PointerSet}

/-- The list, or the checksum beside it, that a verified list of the lists has for a named territory. -/
def NamedList (rt : Runtime) (boot : Bootstrap) (named : List String) (url : String) : Prop :=
  ∃ lotl code ptr, VerifiedLOTL rt boot lotl ∧ code ∈ named ∧ lotl.pointerFor code = .ok ptr ∧
    (url = ptr.tslLocation ∨ url = Fetcher.digestURL ptr.tslLocation)

/-- The host was opted in before, or is the one of a named territory's pointer. -/
def OptedIn (rt : Runtime) (named : List String) (f : Fetcher) (ps : PointerSet) (host : String) : Prop :=
  host ∈ f.httpAllowed ∨ ∃ code lp u, code ∈ named ∧ ps.pointerFor code = .ok lp ∧
    rt.parseURL lp.url = .ok u ∧ host = rt.toLower u.hostname

/-- Nothing else that the cycle asks for is a plain http URL on an opted-in host, and no redirect leads
to plain http. -/
structure HttpApart (rt : Runtime) (cfg : Config) (boot : Bootstrap) (cy : Cycle) (prev : Option Snapshot)
    (f : Fetcher) : Prop where
  redirects : NoHttpRedirects rt cy.net
  lotl : NotHttpOn rt (· ∈ f.httpAllowed) cfg.lotlURL ∧
    NotHttpOn rt (· ∈ f.httpAllowed) (Fetcher.digestURL cfg.lotlURL)
  pivots : PivotURLs rt (NotHttpOn rt (· ∈ f.httpAllowed)) cfg boot cy prev f
  lists : ∀ res f₁, ingestLOTL rt cfg cy prev boot f = (.ok res, f₁) → ∀ code lp,
    code ∉ cfg.allowHTTPTerritories → res.pointers.pointerFor code = .ok lp →
    NotHttpOn rt (OptedIn rt cfg.allowHTTPTerritories f res.pointers) lp.url ∧
      NotHttpOn rt (OptedIn rt cfg.allowHTTPTerritories f res.pointers) (Fetcher.digestURL lp.url)

/-- Neither the list of the lists nor a pivot is asked for over plain http. -/
theorem HttpApart.ingestLOTL (h : HttpApart rt cfg boot cy prev f) :
    HttpSince f (· ∈ f.httpAllowed) (fun _ => False) (ingestLOTL rt cfg cy prev boot f).2 := by
  refine (httpSince_guarded h.redirects).ingestLOTL ⟨trivial, .inl h.lotl.1⟩ (.inl h.lotl.2) ?_
    (.refl fun _ hhost => hhost)
  intro raw g pinned seq signers hraw hpinned hsigners hno ref href hlt
  exact ⟨trivial, .inl (h.pivots raw g pinned seq signers hraw hpinned hsigners hno ref href hlt)⟩

/-- What the pointer of a territory may be like, given what is known of those of the other ones. -/
theorem HttpApart.pointed (h : HttpApart rt cfg boot cy prev f) {res : LOTLResult} {f₁ : Fetcher}
    (hres : Ingest.ingestLOTL rt cfg cy prev boot f = (.ok res, f₁)) {code : String}
    (hnamed : code ∈ cfg.allowHTTPTerritories → ∀ lp, res.pointers.pointerFor code = .ok lp →
      P lp.url ∧ P (Fetcher.digestURL lp.url)) :
    Guarded.Pointed (fun _ => True)
      (fun url => NotHttpOn rt (OptedIn rt cfg.allowHTTPTerritories f res.pointers) url ∨ P url)
      (HostOf rt (OptedIn rt cfg.allowHTTPTerritories f res.pointers)) cfg res.pointers code := by
  by_cases hcode : code ∈ cfg.allowHTTPTerritories
  · refine ⟨fun lp hlp => ⟨trivial, .inr (hnamed hcode lp hlp).1⟩, fun lp hlp => .inr (hnamed hcode lp hlp).2,
      fun lp hlp _ u hu => .inr ⟨code, lp, u, hcode, hlp, hu, rfl⟩⟩
  · refine ⟨fun lp hlp => ⟨trivial, .inl (h.lists res f₁ hres code lp hcode hlp).1⟩,
      fun lp hlp => .inl (h.lists res f₁ hres code lp hcode hlp).2, fun lp hlp hallows => ?_⟩
    exact absurd (by simpa [Config.allowsHTTP] using hallows) hcode

theorem namedList_pointer {named : List String} {code : String} {lp : ListPointer}
    (hps : PointersOf rt boot ps) (hcode : code ∈ named) (hlp : ps.pointerFor code = .ok lp) :
    NamedList rt boot named lp.url ∧ NamedList rt boot named (Fetcher.digestURL lp.url) := by
  obtain ⟨lotl, hlotl, rfl⟩ := hps
  obtain ⟨ptr, hptr, hurl, -⟩ := lotlPointerSet_pointerFor hlp
  rw [hurl]
  exact ⟨⟨lotl, code, ptr, hlotl, hcode, hptr, .inl rfl⟩, ⟨lotl, code, ptr, hlotl, hcode, hptr, .inr rfl⟩⟩

theorem HttpApart.refresh (h : HttpApart rt cfg boot cy prev f)
    (hprev : ∀ p ∈ prev, SnapshotFrom rt boot p) :
    HttpSent f (NamedList rt boot cfg.allowHTTPTerritories) (refresh rt cfg cy prev boot f).2 := by
  have hlotl := h.ingestLOTL
  refine refresh_keeps (hlotl.mono (fun _ h => h) nofun).sent fun res f₁ hres codes => ?_
  rw [hres] at hlotl
  have hps := (ingestLOTL_from hprev hres).2
  refine ((httpSince_guarded h.redirects).ingestTerritories (fun code => h.pointed hres ?_) codes f₁
    (hlotl.mono (fun _ hhost => .inl hhost) nofun)).sent
  exact fun hcode lp hlp => namedList_pointer hps hcode hlp

/-- Plain http requests are sent neither for the list of the lists and pivots, nor while a territory is
read that is not named. -/
def OthersOverHttps (rt : Runtime) (cfg : Config) (boot : Bootstrap) (cy : Cycle) (prev : Option Snapshot)
    (f : Fetcher) : Prop :=
  HttpSent f (fun _ => False) (ingestLOTL rt cfg cy prev boot f).2 ∧
    ∀ res f₁, ingestLOTL rt cfg cy prev boot f = (.ok res, f₁) → ∀ code g,
      (code, g) ∈ loopFetchers rt cfg cy res.pointers prev
        (expandTerritories cfg.territories res.pointers) f₁ →
      code ∉ cfg.allowHTTPTerritories →
      HttpSent g (fun _ => False) (ingestTerritory rt cfg cy res.pointers code prev g).2

theorem HttpApart.others (h : HttpApart rt cfg boot cy prev f) : OthersOverHttps rt cfg boot cy prev f := by
  have hlotl := h.ingestLOTL
  refine ⟨hlotl.sent, fun res f₁ hres code g hg hcode => ?_⟩
  rw [hres] at hlotl
  -- whatever the territories before it did, only these hosts are opted in
  have hopted : HttpSince f (OptedIn rt cfg.allowHTTPTerritories f res.pointers) (fun _ => True) g := by
    refine loopFetchers_keeps (fun c => ?_) (hlotl.mono (fun _ hhost => .inl hhost) nofun) hg
    exact (httpSince_guarded h.redirects).ingestTerritory (h.pointed hres fun _ _ _ => ⟨trivial, trivial⟩)
  refine ((httpSince_guarded h.redirects).ingestTerritory (h.pointed hres ?_) g (.refl hopted.opted)).sent
  exact fun hnamed => absurd hnamed hcode

end Cycle

/-! ## Whole runs -/

theorem httpApart_kept (rt : Runtime) (named : List String) :
    FetcherKept rt (fun cfg => cfg.allowHTTPTerritories = named) (HttpApart rt) fun b f =>
      ∀ r ∈ f.sent, r.url.scheme = "http" → ∃ boot, b = some boot ∧ NamedList rt boot named r.raw where
  restart h := h
  seed h r hr hhttp := by simpa using h r hr hhttp
  cycle {cfg boot cy prev f} hcfg hprev hC h r hr hhttp := by
    obtain ⟨new, hsent, hnew⟩ := hC.refresh hprev
    rw [hsent] at hr
    rcases List.mem_append.1 hr with hr | hr
    · exact h r hr hhttp
    · exact ⟨boot, rfl, hcfg ▸ hnew r hr hhttp⟩

/-- In every run in which nothing else is asked for over plain http on an opted-in host: every plain http
request is for the list, or the checksum beside it, of a named territory; none is sent for the list of
the lists, for a pivot or while another territory is read. -/
theorem http_perTerritory (ops : List (Config × Op)) (maxSize : Int) {named : List String}
    (hcfg : ∀ i ∈ ops, i.1.allowHTTPTerritories = named)
    (hops : CyclesMeet rt (HttpApart rt) ops (Service.empty maxSize)) :
    (∀ r ∈ ((Service.empty maxSize).run rt ops).fetcher.sent, r.url.scheme = "http" →
        ∃ boot, ((Service.empty maxSize).run rt ops).store.bootstrap = some boot ∧
          NamedList rt boot named r.raw) ∧
      CyclesMeet rt (OthersOverHttps rt) ops (Service.empty maxSize) := by
  refine ⟨((httpApart_kept rt named).run ?_ hcfg hops).fetcher, hops.imp HttpApart.others⟩
  simp [newFetcher]

namespace Symbolic

/-- Two territories: in the list of the lists `L` on one host, in `M` on hosts of their own. -/
def sharing : World where
  documents :=
    [⟨ofText "L", ofText "B", lotl 1 [] ["B"] [pointer "EE" "" "http://shared/ee.xml" ["S"],
        pointer "LV" "" "http://shared/lv.xml" ["S"]]⟩,
      ⟨ofText "M", ofText "B", lotl 1 [] ["B"] [pointer "EE" "" "http://shared/ee.xml" ["S"],
        pointer "LV" "" "https://lv/lv.xml" ["S"]]⟩,
      ⟨ofText "1", ofText "S", national "EE" 1 (some 100) ["K"]⟩,
      ⟨ofText "2", ofText "S", national "LV" 1 (some 100) ["N"]⟩]
  urls := [("https://eu/lotl.xml", ⟨"https", "eu"⟩), ("http://shared/ee.xml", ⟨"http", "shared"⟩),
    ("http://shared/lv.xml", ⟨"http", "shared"⟩), ("https://lv/lv.xml", ⟨"https", "lv"⟩)]

/-- Only `EE` is named for plain http. -/
def sharingConfig : Config := { config ["EE", "LV"] .auto 0 with allowHTTPTerritories := ["EE"] }

/-- An install and a cycle on the given list of the lists. -/
def sharingOps (doc : String) : List Op :=
  [install ["B"], refresh 5 [("https://eu/lotl.xml", ofText doc), ("http://shared/ee.xml", ofText "1"),
    ("http://shared/lv.xml", ofText "2"), ("https://lv/lv.xml", ofText "2")]]

end Symbolic

open Symbolic in
/-- The opt-in of one territory lets the list of another one on the same host go over plain http. -/
theorem http_perTerritory_shared :
    ⟨"http://shared/lv.xml", ⟨"http", "shared"⟩⟩ ∈ (sharing.run sharingConfig (sharingOps "L")).fetcher.sent ∧
      ∀ boot, ¬ NamedList sharing.runtime boot ["EE"] "http://shared/lv.xml" := by
  refine ⟨by decide +kernel, ?_⟩
  rintro boot ⟨tl, code, ptr, hverified, hcode, hptr, hurl⟩
  obtain ⟨certs, signers, clock, raw, verified, signer, -, -, -, hparse⟩ := hverified
  have hall : ∀ tl ∈ sharing.documents.map Document.list, (tl.pointerFor "EE").toOption.all fun ptr =>
      "http://shared/lv.xml" ≠ ptr.tslLocation ∧
        "http://shared/lv.xml" ≠ Fetcher.digestURL ptr.tslLocation := by decide +kernel
  rw [List.mem_singleton.1 hcode] at hptr
  have hlist := hall tl (World.parse_mem hparse)
  simp only [hptr, Except.toOption, Option.all_some, decide_eq_true_eq] at hlist
  rcases hurl with hurl | hurl
  · exact hlist.1 hurl
  · exact hlist.2 hurl

namespace Symbolic

theorem network_noHttpRedirects {rt : Runtime} (pages : List (String × Bytes)) :
    NoHttpRedirects rt (network pages) := by
  intro site n url location h
  unfold network at h
  split at h <;> cases h

theorem notHttpOn_of_https {rt : Runtime} {H : String → Prop} {url : String}
    (h : (rt.parseURL url).toOption.all fun u => u.scheme ≠ "http") : NotHttpOn rt H url := by
  intro u hu hhttp
  simp [hu, Except.toOption, hhttp] at h

theorem sharing_apart {pages : List (String × Bytes)} {boot : Bootstrap} {f : Fetcher}
    (hraw : (fetchLOTL sharing.runtime sharingConfig (cycle 5 pages) none f).1 =
      .ok ⟨ofText "M", hexEncode (ofText "M")⟩)
    (hlists : (ingestLOTL sharing.runtime sharingConfig (cycle 5 pages) none boot f).1.toOption.all fun res =>
      ∀ lp ∈ res.pointers.list, lp.territory ≠ "EE" → lp.url = "" ∨ lp.url = "https://lv/lv.xml") :
    HttpApart sharing.runtime sharingConfig boot (cycle 5 pages) none f := by
  refine ⟨network_noHttpRedirects _, ⟨notHttpOn_of_https (by decide), notHttpOn_of_https (by decide +kernel)⟩,
    ?_, ?_⟩
  · intro raw g pinned seq signers hfetch _ _ _ ref href
    have hnone : advertisedPivots sharing.runtime (ofText "M") = [] := by decide +kernel
    cases hraw.symm.trans (congrArg Prod.fst hfetch)
    rw [hnone] at href
    cases href
  · intro res f₁ hres code lp hcode hlp
    obtain ⟨hmem, rfl, -⟩ := PointerSet.pointerFor_ok hlp
    simp only [hres, Except.toOption, Option.all_some, decide_eq_true_eq] at hlists
    have hother : lp.territory ≠ "EE" := by simpa [sharingConfig] using hcode
    rcases hlists lp hmem hother with hurl | hurl <;> rw [hurl]
    · exact ⟨notHttpOn_of_https (by decide), notHttpOn_of_https (by decide +kernel)⟩
    · exact ⟨notHttpOn_of_https (by decide), notHttpOn_of_https (by decide +kernel)⟩

end Symbolic

open Symbolic in
/-- Territories on hosts of their own. -/
theorem http_perTerritory_apart :
    ((sharing.run sharingConfig (sharingOps "M")).fetcher.sent.map Request.raw) =
        ["https://eu/lotl.xml", "http://shared/ee.xml", "https://lv/lv.xml"] ∧
      ∀ r ∈ (sharing.run sharingConfig (sharingOps "M")).fetcher.sent, r.url.scheme = "http" →
        ∃ boot, (sharing.run sharingConfig (sharingOps "M")).store.bootstrap = some boot ∧
          NamedList sharing.runtime boot ["EE"] r.raw := by
  have hmeets : CyclesMeet sharing.runtime (HttpApart sharing.runtime)
      ((sharingOps "M").map fun op => (sharingConfig, op)) (Service.empty 100) := by
    refine ⟨trivial, fun boot hboot => sharing_apart (by decide +kernel) ?_, trivial⟩
    obtain rfl := Option.some.inj hboot
    decide +kernel
  exact ⟨by decide +kernel, (http_perTerritory _ 100 (by simp [sharingConfig]) hmeets).1⟩

end TrustAnchor.Ingest
