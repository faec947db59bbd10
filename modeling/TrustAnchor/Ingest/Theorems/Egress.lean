import TrustAnchor.Ingest.Lemmas.Egress
import TrustAnchor.Ingest.Symbolic

/-!
# Confinement of egress
-/

namespace TrustAnchor.Ingest

open Lib Tsl Trust

variable {rt : Runtime} {lotlURL : String}

/-- A host that the service may talk to, given the bootstrap set it stores. -/
def Service.EgressHost (rt : Runtime) (lotlURL : String) (m : Service) (host : String) : Prop :=
  ∃ boot, m.store.bootstrap = some boot ∧ Ingest.EgressHost rt lotlURL boot host

/-- The cycle is not sent elsewhere: neither by a redirect, nor by a pivot that a list advertises which
does not verify. -/
structure NotLured (rt : Runtime) (cfg : Config) (boot : Bootstrap) (cy : Cycle)
    (prev : Option Snapshot) (f : Fetcher) : Prop where
  redirects : RedirectsTo rt (EgressHost rt cfg.lotlURL boot) cy.net
  pivots : PivotURLs rt (HostOf rt (EgressHost rt cfg.lotlURL boot)) cfg boot cy prev f

theorem confined_kept : FetcherKept rt (fun cfg => cfg.lotlURL = lotlURL) (NotLured rt)
    (fun b => Confined rt fun host => ∃ boot, b = some boot ∧ Ingest.EgressHost rt lotlURL boot host) where
  restart h := ⟨by simp [newFetcher], h.sent⟩
  seed h := ⟨fun host hhost => by simpa using h.allowed host hhost, fun r hr => by simpa using h.sent r hr⟩
  cycle {cfg boot cy prev f} hcfg hprev hC h := by
    subst hcfg
    have hhost : (fun host => ∃ boot', some boot = some boot' ∧ Ingest.EgressHost rt cfg.lotlURL boot' host) =
        Ingest.EgressHost rt cfg.lotlURL boot := by
      funext host
      simp
    rw [hhost] at h ⊢
    exact refresh_confined hprev hC.redirects hC.pivots h

/-- In every run in which no cycle is lured elsewhere, every allowed host and every host that a request
was sent to is the one of the list of the lists or of a territory pointer of a verified one. -/
theorem egress_confined (ops : List (Config × Op)) (maxSize : Int) (hcfg : ∀ i ∈ ops, i.1.lotlURL = lotlURL)
    (hops : CyclesMeet rt (NotLured rt) ops (Service.empty maxSize)) :
    let m := (Service.empty maxSize).run rt ops
    (∀ host ∈ m.fetcher.allowed, m.EgressHost rt lotlURL host) ∧
      ∀ r ∈ m.fetcher.sent, m.EgressHost rt lotlURL (rt.toLower r.url.hostname) := by
  intro m
  have hempty : Confined rt (fun host => ∃ boot, none = some boot ∧ Ingest.EgressHost rt lotlURL boot host)
      (newFetcher maxSize) := ⟨by simp [newFetcher], by simp [newFetcher]⟩
  have hrun := (confined_kept.run hempty hcfg hops).fetcher
  exact ⟨hrun.allowed, hrun.sent⟩

namespace Symbolic

/-- The list of the lists of the publisher, and bytes of another origin that advertise a pivot. -/
def lured : World where
  documents :=
    [⟨ofText "L", ofText "B", lotl 1 [] ["B"] [pointer "EE" "" "https://ee/tl.xml" ["S"]]⟩,
      ⟨ofText "1", ofText "S", national "EE" 1 (some 100) ["K"]⟩,
      ⟨ofText "X", ofText "E", lotl 1 ["https://evil/eu-lotl-pivot-2.xml"] ["E"] []⟩]
  urls := [("https://eu/lotl.xml", ⟨"https", "eu"⟩), ("https://ee/tl.xml", ⟨"https", "ee"⟩),
    ("https://evil/eu-lotl-pivot-2.xml", ⟨"https", "evil"⟩)]

/-- The pages with `n` for the list of the lists. -/
def luredPages (n : String) : List (String × Bytes) :=
  [("https://eu/lotl.xml", ofText n), ("https://ee/tl.xml", ofText "1")]

theorem network_redirectsTo {rt : Runtime} {P : String → Prop} (pages : List (String × Bytes)) :
    RedirectsTo rt P (network pages) := by
  intro site n url location h
  unfold network at h
  split at h <;> cases h

end Symbolic

open Symbolic in
/-- Bytes that nobody trusted signed, served for the list of the lists, have a request sent to a host
that only they name. -/
theorem egress_lured :
    let m := lured.run (config ["EE"] .auto 0) [install ["B"], Symbolic.refresh 5 (luredPages "X")]
    "evil" ∈ m.fetcher.allowed ∧ ⟨"https://evil/eu-lotl-pivot-2.xml", ⟨"https", "evil"⟩⟩ ∈ m.fetcher.sent ∧
      ¬ m.EgressHost lured.runtime "https://eu/lotl.xml" "evil" := by
  intro m
  refine ⟨by decide +kernel, by decide +kernel, ?_⟩
  rintro ⟨boot, -, ⟨u, hu, hhost⟩ | ⟨tl, code, ptr, u, hverified, hptr, hu, hhost⟩⟩
  · cases hu
    revert hhost
    decide
  · -- no document of the world has a pointer to the host
    obtain ⟨certs, signers, clock, raw, verified, signer, -, -, -, hparse⟩ := hverified
    have hall : ∀ tl ∈ lured.documents.map Document.list,
        ∀ ptr ∈ tl.schemeInformation.pointersToOtherTSL,
          (lured.runtime.parseURL ptr.tslLocation).toOption.all fun u => "evil" ≠ lured.runtime.toLower u.hostname := by
      decide +kernel
    have hptr := hall tl (World.parse_mem hparse) ptr (TrustedList.pointerFor_mem hptr)
    simp [hu, Except.toOption, ← hhost] at hptr

open Symbolic in
/-- The publisher's own list. -/
theorem egress_confined_lured :
    let m := lured.run (config ["EE"] .auto 0) [install ["B"], Symbolic.refresh 5 (luredPages "L")]
    m.fetcher.allowed = ["ee", "eu"] ∧ ∀ host ∈ m.fetcher.allowed,
      m.EgressHost lured.runtime "https://eu/lotl.xml" host := by
  intro m
  have hmeets : CyclesMeet lured.runtime (NotLured lured.runtime)
      ([install ["B"], Symbolic.refresh 5 (luredPages "L")].map fun op => (config ["EE"] .auto 0, op))
      (Service.empty 100) := by
    refine ⟨trivial, fun boot _ => ⟨network_redirectsTo _, ?_⟩, trivial⟩
    intro raw g pinned seq signers hraw _ _ _ ref href
    have hlist : (fetchLOTL lured.runtime (config ["EE"] .auto 0) (cycle 5 (luredPages "L")) none
        (newFetcher 100)).1 = .ok ⟨ofText "L", hexEncode (ofText "L")⟩ := by decide +kernel
    have hnone : advertisedPivots lured.runtime (ofText "L") = [] := by decide +kernel
    cases hlist.symm.trans (congrArg Prod.fst hraw)
    rw [hnone] at href
    cases href
  refine ⟨by decide +kernel, (egress_confined _ 100 ?_ hmeets).1⟩
  simp [config]

end TrustAnchor.Ingest
