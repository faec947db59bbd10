import TrustAnchor.Ingest.Lemmas.Provenance
import TrustAnchor.Ingest.Lemmas.Requests

/-!
# Where requests go

A request goes out to a host of the allow-list, or to where a redirect points. What is on the allow-list
was put there for a URL that the caller had at hand.
-/

namespace TrustAnchor.Ingest

open Lib Tsl Trust

variable {rt : Runtime} {P : String → Prop}

/-- Every allowed host and the host of every request has `P`; hosts are compared in lower case. -/
structure Confined (rt : Runtime) (P : String → Prop) (f : Fetcher) : Prop where
  allowed : ∀ h ∈ f.allowed, P h
  sent : ∀ r ∈ f.sent, P (rt.toLower r.url.hostname)

/-- The host of the URL has `P`. -/
def HostOf (rt : Runtime) (P : String → Prop) (url : String) : Prop :=
  ∀ u, rt.parseURL url = .ok u → P (rt.toLower u.hostname)

/-- Every redirect of the network is to a host with `P`. -/
def RedirectsTo (rt : Runtime) (P : String → Prop) (net : Network) : Prop :=
  ∀ site n url location, net site n url = .redirect location → HostOf rt P location

/-! ## The fetcher -/

namespace Fetcher

theorem allowURL_confined {url : String} (h : HostOf rt P url) :
    Fallible.Keeps (Confined rt P) (allowURL rt url) := by
  intro f hf
  rw [allowURL_run]
  cases hu : rt.parseURL url with
  | error e => exact hf
  | ok u =>
      simp only
      split_ifs
      · exact hf
      · refine ⟨fun host hhost => ?_, hf.sent⟩
        rcases List.mem_insert_iff.1 hhost with rfl | hhost
        · exact h u hu
        · exact hf.allowed host hhost
      · exact hf

theorem allowHTTPFor_confined (url : String) : Fallible.Keeps (Confined rt P) (allowHTTPFor rt url) := by
  unfold allowHTTPFor
  split
  · exact .fail _
  · split_ifs
    · exact .fail _
    · exact .modify fun f hf => ⟨hf.allowed, hf.sent⟩

end Fetcher

theorem confined_guarded {net : Network} (hnet : RedirectsTo rt P net) :
    Guarded rt net (Confined rt P) (HostOf rt P) (fun _ => True) (fun _ => True) := by
  have hsend : Sendable rt net (Confined rt P) fun r => P (rt.toLower r.url.hostname) := by
    refine ⟨fun {f r} hr hf => ⟨hf.allowed, fun r' hr' => ?_⟩, fun hredirect hu => hnet _ _ _ _ hredirect _ hu⟩
    rcases List.mem_append.1 hr' with hr' | hr'
    · exact hf.sent r' hr'
    · rw [List.mem_singleton.1 hr']
      exact hr
  refine ⟨fun h => Fetcher.allowURL_confined h, fun _ => ?_, fun _ => Fetcher.allowHTTPFor_confined _⟩
  exact hsend.fetch fun f u hf _ _ hallowed => hf.allowed _ hallowed

section Cycle

variable {cfg : Config} {cy : Cycle} {prev : Option Snapshot} {boot : Bootstrap} {f : Fetcher}
  {ps : PointerSet}

/-! ## The cycle -/

/-- A host that the service may talk to: the one of the list of the lists, and those of the territory
pointers of verified lists of the lists. -/
def EgressHost (rt : Runtime) (lotlURL : String) (boot : Bootstrap) (host : String) : Prop :=
  (∃ u, rt.parseURL lotlURL = .ok u ∧ host = rt.toLower u.hostname) ∨
    ∃ lotl code ptr u, VerifiedLOTL rt boot lotl ∧ lotl.pointerFor code = .ok ptr ∧
      rt.parseURL ptr.tslLocation = .ok u ∧ host = rt.toLower u.hostname

theorem hostOf_lotlURL (lotlURL : String) (boot : Bootstrap) :
    HostOf rt (EgressHost rt lotlURL boot) lotlURL := fun u hu => .inl ⟨u, hu, rfl⟩

theorem hostOf_pointer {lotlURL code : String} {lp : ListPointer} (hps : PointersOf rt boot ps)
    (h : ps.pointerFor code = .ok lp) : HostOf rt (EgressHost rt lotlURL boot) lp.url := by
  obtain ⟨lotl, hlotl, rfl⟩ := hps
  obtain ⟨ptr, hptr, hurl, -⟩ := lotlPointerSet_pointerFor h
  intro u hu
  exact .inr ⟨lotl, code, ptr, u, hlotl, hptr, hurl ▸ hu, rfl⟩

theorem refresh_confined (hprev : ∀ p ∈ prev, SnapshotFrom rt boot p)
    (hnet : RedirectsTo rt (EgressHost rt cfg.lotlURL boot) cy.net)
    (hpivots : PivotURLs rt (HostOf rt (EgressHost rt cfg.lotlURL boot)) cfg boot cy prev f)
    (hf : Confined rt (EgressHost rt cfg.lotlURL boot) f) :
    Confined rt (EgressHost rt cfg.lotlURL boot) (refresh rt cfg cy prev boot f).2 := by
  have hguarded := confined_guarded hnet
  have hlotl : Confined rt (EgressHost rt cfg.lotlURL boot) (ingestLOTL rt cfg cy prev boot f).2 := by
    refine hguarded.ingestLOTL ⟨hostOf_lotlURL cfg.lotlURL boot, trivial⟩ trivial ?_ hf
    intro raw g pinned seq signers hraw hpinned hsigners hno ref href hlt
    exact ⟨hpivots raw g pinned seq signers hraw hpinned hsigners hno ref href hlt, trivial⟩
  refine refresh_keeps hlotl fun res f₁ hres codes => ?_
  have hps := (ingestLOTL_from hprev hres).2
  rw [hres] at hlotl
  refine hguarded.ingestTerritories (fun code => ⟨fun lp hlp => ?_, ?_, ?_⟩) codes f₁ hlotl
  · exact ⟨hostOf_pointer hps hlp, trivial⟩
  · exact fun _ _ => trivial
  · exact fun _ _ _ => trivial

end Cycle

/-! ## Runs -/

/-- A property of the fetcher, relative to the stored bootstrap set, that a new process and every cycle
with `C` keep. -/
structure FetcherKept (rt : Runtime) (A : Config → Prop)
    (C : Config → Bootstrap → Cycle → Option Snapshot → Fetcher → Prop)
    (J : Option Bootstrap → Fetcher → Prop) : Prop where
  restart : ∀ {b f}, J b f → J b { newFetcher f.maxSize with sent := f.sent }
  seed : ∀ {b f}, J none f → J (some b) f
  cycle : ∀ {cfg boot cy prev f}, A cfg → (∀ p ∈ prev, SnapshotFrom rt boot p) → C cfg boot cy prev f →
    J (some boot) f → J (some boot) (refresh rt cfg cy prev boot f).2

section Runs

variable {A : Config → Prop} {C : Config → Bootstrap → Cycle → Option Snapshot → Fetcher → Prop}
  {J : Option Bootstrap → Fetcher → Prop} {cfg : Config} {m : Service}

/-- Provenance of what is served and stored, and the property of the fetcher. -/
structure FetcherHolds (rt : Runtime) (J : Option Bootstrap → Fetcher → Prop) (m : Service) : Prop where
  holds : Holds (SnapshotFrom rt) m
  fetcher : J m.store.bootstrap m.fetcher

namespace FetcherHolds

theorem restart (hJ : FetcherKept rt A C J) (h : FetcherHolds rt J m) (st : Service.Startup) :
    FetcherHolds rt J (m.newProcess.initializeManager st).2 := by
  have hholds := h.holds.restart st
  have hidle := hJ.restart h.fetcher
  have hseeded : ∀ b, (∀ b' ∈ m.store.bootstrap, b' = b) →
      J (some b) { newFetcher m.fetcher.maxSize with sent := m.fetcher.sent } := by
    intro b hb
    cases hstore : m.store.bootstrap with
    | none =>
        rw [hstore] at hidle
        exact hJ.seed hidle
    | some b' => rwa [hstore, hb b' hstore] at hidle
  obtain heq | ⟨b, hb, ⟨-, heq⟩ | ⟨s, -, heq⟩⟩ := m.restart_cases st <;> rw [heq] at hholds ⊢
  · exact ⟨hholds, hidle⟩
  · exact ⟨hholds, hseeded b hb⟩
  · exact ⟨hholds, hseeded b hb⟩

/-- The cycle of a refresh runs under the stored bootstrap set. -/
theorem refresh (hJ : FetcherKept rt A C J) (hA : A cfg) (h : FetcherHolds rt J m) {boot : Bootstrap}
    (hboot : m.bootstrap = some boot) (inp : Service.RefreshInput)
    (hC : C cfg boot inp.cycle (m.reconcileDeclared rt cfg inp.declared).2.active m.fetcher) :
    FetcherHolds rt J (m.refresh rt cfg boot inp).2 := by
  have hstored := h.holds.bootstrap boot hboot
  have hholds := h.holds.refresh (snapshotFrom_stable rt cfg) hboot inp trivial
  have hdeclared := h.holds.reconcileDeclared (snapshotFrom_stable rt cfg) inp.declared
  have hprev : ∀ p ∈ (m.reconcileDeclared rt cfg inp.declared).2.active, SnapshotFrom rt boot p := by
    intro p hp
    obtain ⟨b, hb, hp⟩ := hdeclared.active p hp
    rw [Service.reconcileDeclared_storeBootstrap, hstored] at hb
    cases hb
    exact hp
  have hcycle := hJ.cycle hA hprev hC (hstored ▸ h.fetcher)
  obtain ⟨e, f, hf, heq⟩ | ⟨next, f, hf, heq⟩ := m.refresh_cases boot inp <;>
    rw [Service.reconcileDeclared_fetcher] at hf <;> rw [hf] at hcycle <;> rw [heq] at hholds ⊢
  · exact ⟨hholds, by simpa [hstored] using hcycle⟩
  · exact ⟨hholds, by simpa [hstored] using hcycle⟩

theorem step (hJ : FetcherKept rt A C J) (hA : A cfg) (h : FetcherHolds rt J m) {op : Op}
    (hop : CycleMeets rt cfg (C cfg) m op) : FetcherHolds rt J (m.step rt cfg op) := by
  cases op with
  | restart st => exact h.restart hJ st
  | reconcileDeclared d =>
      refine ⟨h.holds.reconcileDeclared (snapshotFrom_stable rt cfg) d, ?_⟩
      simpa [Service.step] using h.fetcher
  | approvePending fp now refused =>
      refine ⟨h.holds.approvePending (snapshotFrom_stable rt cfg) fp now refused, ?_⟩
      unfold Service.step
      simp only
      obtain ⟨e, heq⟩ | ⟨cur, pa, -, -, heq⟩ := m.approvePending_cases fp now refused <;> rw [heq]
      · exact h.fetcher
      · simpa [Service.activate] using h.fetcher
  | refresh inp =>
      unfold Service.step
      simp only
      split
      · exact h
      · rename_i boot hboot
        exact h.refresh hJ hA hboot inp (hop boot hboot)

end FetcherHolds

/-- In a run from an empty store whose cycles all meet `C`, the property holds of the fetcher. -/
theorem FetcherKept.run (hJ : FetcherKept rt A C J) {maxSize : Int} (hempty : J none (newFetcher maxSize))
    {ops : List (Config × Op)} (hA : ∀ i ∈ ops, A i.1) (hops : CyclesMeet rt C ops (Service.empty maxSize)) :
    FetcherHolds rt J ((Service.empty maxSize).run rt ops) :=
  runFrom_keeps (fun _ _ h hi => h.step hJ hi.2 hi.1) ⟨.empty maxSize, hempty⟩
    (Meets.and hops (meets_of_forall hA _))

end Runs

end TrustAnchor.Ingest
