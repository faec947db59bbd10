import Mathlib.Logic.Relation
import TrustAnchor.Ingest.Lemmas.Fetching
import TrustAnchor.Ingest.Symbolic

/-!
# Redirects and the egress rule

A download checks the URL it is called with. Where the servers send it from there is not checked.
-/

namespace TrustAnchor.Ingest

open Lib

variable {rt : Runtime} {net : Network} {site : Site} {f : Fetcher} {n : Nat} {r r' : Request}

/-! ## The requests of a download -/

/-- The request that the client makes next, when the answer is a redirect that it can follow. -/
def redirectOf (rt : Runtime) (net : Network) (site : Site) (n : Nat) (r : Request) : Option Request :=
  match net site n r.raw with
  | .redirect location =>
    match rt.parseURL location with
    | .ok v =>
      if v.scheme ≠ "https" && v.scheme ≠ "http" then none
      else if v.host = "" then none
      else some ⟨location, v⟩
    | .error _ => none
  | _ => none

/-- The requests from the `n`-th on. -/
def hops (rt : Runtime) (net : Network) (site : Site) : Nat → Nat → Request → List Request
  | 0, _, _ => []
  | fuel + 1, n, r => r :: ((redirectOf rt net site n r).map (hops rt net site fuel (n + 1))).getD []

theorem clientDo_sent (fuel n : Nat) (r : Request) (f : Fetcher) :
    (Fetcher.clientDo rt net site fuel n r.raw r.url f).2.sent = f.sent ++ hops rt net site fuel n r := by
  induction fuel generalizing n r f with
  | zero => simp [Fetcher.clientDo, hops]
  | succ fuel ih =>
      simp only [Fetcher.clientDo, hops, redirectOf, Fallible.modify_bind_run]
      cases net site n r.raw with
      | failed e => simp
      | response status body => simp
      | redirect location =>
          cases hparse : rt.parseURL location with
          | error e => simp [hparse]
          | ok v =>
              simp only [hparse]
              split_ifs
              · simp
              · simp
              · have hrest := ih (n + 1) ⟨location, v⟩ { f with sent := f.sent ++ [r] }
                simpa using hrest

/-- The requests that a download adds to the log. -/
def requested (rt : Runtime) (net : Network) (site : Site) (raw : String) (f : Fetcher) : List Request :=
  (Fetcher.fetch rt net site raw f).2.sent.drop f.sent.length

/-- The scheme rule and the allow-list. -/
def Obeys (rt : Runtime) (f : Fetcher) (r : Request) : Prop :=
  f.schemeOK rt r.url = true ∧ rt.toLower r.url.hostname ∈ f.allowed

instance (rt : Runtime) (f : Fetcher) (r : Request) : Decidable (Obeys rt f r) :=
  inferInstanceAs (Decidable (f.schemeOK rt r.url = true ∧ rt.toLower r.url.hostname ∈ f.allowed))

/-- A download that is refused makes no request. -/
theorem requested_eq (rt : Runtime) (net : Network) (site : Site) (raw : String) (f : Fetcher) :
    requested rt net site raw f = match rt.parseURL raw with
      | .error _ => []
      | .ok u => if Obeys rt f ⟨raw, u⟩ then hops rt net site 10 0 ⟨raw, u⟩ else [] := by
  unfold requested Fetcher.fetch
  cases rt.parseURL raw with
  | error e => simp
  | ok u =>
      simp only [Fallible.get_bind_run]
      have hsent := @clientDo_sent rt net site 10 0 ⟨raw, u⟩ f
      by_cases hscheme : f.schemeOK rt u
      · by_cases hhost : rt.toLower u.hostname ∈ f.allowed
        · simp [hscheme, hhost, Obeys, hsent]
        · simp [hscheme, hhost, Obeys]
      · simp [hscheme, Obeys]

/-! ## Chains of redirects -/

/-- A redirect that stays inside the rule; the client stops after ten requests. -/
def HopsInside (rt : Runtime) (net : Network) (site : Site) (f : Fetcher) (a b : Nat × Request) : Prop :=
  redirectOf rt net site a.1 a.2 = some b.2 ∧ b.1 = a.1 + 1 ∧ b.1 < 10 ∧ Obeys rt f b.2

/-- No server that is reached inside the rule from the `n`-th request on redirects outside it. -/
def StaysInside (rt : Runtime) (net : Network) (site : Site) (f : Fetcher) (n : Nat) (r : Request) : Prop :=
  ∀ m s s', Relation.ReflTransGen (HopsInside rt net site f) (n, r) (m, s) → m + 1 < 10 →
    redirectOf rt net site m s = some s' → Obeys rt f s'

theorem StaysInside.next (h : StaysInside rt net site f n r) (hn : n + 1 < 10)
    (hr : redirectOf rt net site n r = some r') : Obeys rt f r' ∧ StaysInside rt net site f (n + 1) r' := by
  have hobeys : Obeys rt f r' := h n r r' .refl hn hr
  refine ⟨hobeys, fun m s s' hreach hm hs => h m s s' (.head ?_ hreach) hm hs⟩
  exact ⟨hr, rfl, hn, hobeys⟩

theorem staysInside_of_none (hr : redirectOf rt net site n r = none) : StaysInside rt net site f n r := by
  intro m s s' hreach _ hs
  rcases hreach.cases_head with heq | ⟨b, ⟨hb, -⟩, -⟩
  · cases heq
    rw [hr] at hs
    cases hs
  · rw [hr] at hb
    cases hb

theorem staysInside_of_next (hr : redirectOf rt net site n r = some r') (hobeys : Obeys rt f r')
    (h : StaysInside rt net site f (n + 1) r') : StaysInside rt net site f n r := by
  intro m s s' hreach hm hs
  rcases hreach.cases_head with heq | ⟨b, ⟨hb, hindex, -⟩, hrest⟩
  · cases heq
    rw [hr] at hs
    exact Option.some.inj hs ▸ hobeys
  · rw [hr] at hb
    have hb : b = (n + 1, r') := Prod.ext hindex (Option.some.inj hb).symm
    exact h m s s' (hb ▸ hrest) hm hs

theorem staysInside_of_last (hn : 10 ≤ n + 1) : StaysInside rt net site f n r := by
  intro m s s' hreach hm
  rcases hreach.cases_head with heq | ⟨b, ⟨-, hindex, hlast, -⟩, -⟩
  · cases heq
    omega
  · simp only at hindex
    omega

/-- By induction on the requests that are left. -/
theorem hops_obey_iff {fuel : Nat} (hfuel : n + (fuel + 1) = 10) (hr : Obeys rt f r) :
    (∀ s ∈ hops rt net site (fuel + 1) n r, Obeys rt f s) ↔ StaysInside rt net site f n r := by
  induction fuel generalizing n r with
  | zero =>
      have hlast : hops rt net site 1 n r = [r] := by
        unfold hops
        cases redirectOf rt net site n r <;> rfl
      rw [hlast, List.forall_mem_singleton]
      exact ⟨fun _ => staysInside_of_last hfuel.ge, fun _ => hr⟩
  | succ fuel ih =>
      rw [hops, List.forall_mem_cons]
      cases hnext : redirectOf rt net site n r with
      | none => simp [hr, staysInside_of_none hnext]
      | some r' =>
          simp only [Option.map_some, Option.getD_some]
          constructor
          · rintro ⟨-, hrest⟩
            have hr' : Obeys rt f r' := hrest r' (by simp [hops])
            exact staysInside_of_next hnext hr' ((ih (by omega) hr').1 hrest)
          · intro hinside
            obtain ⟨hr', hrest⟩ := hinside.next (by omega) hnext
            exact ⟨hr, (ih (by omega) hr').2 hrest⟩

/-! ## The egress rule -/

/-- For every URL and every network: all that a download requests obeys the scheme rule and the allow-list
exactly if no server that it reaches inside them redirects it outside. -/
theorem requested_obeys_iff (rt : Runtime) (net : Network) (site : Site) (raw : String) (f : Fetcher) :
    (∀ r ∈ requested rt net site raw f, Obeys rt f r) ↔
      ∀ u, rt.parseURL raw = .ok u → Obeys rt f ⟨raw, u⟩ → StaysInside rt net site f 0 ⟨raw, u⟩ := by
  rw [requested_eq]
  cases rt.parseURL raw with
  | error e => simp
  | ok u =>
      simp only [Except.ok.injEq, forall_eq']
      split_ifs with hfirst
      · simpa [hfirst] using hops_obey_iff rfl hfirst
      · simp [hfirst]

open Symbolic in
/-- An allowed host redirects to plain http on a host that is not allowed. -/
theorem requested_disobeys :
    let f : Fetcher := { newFetcher 100 with allowed := ["eu"] }
    let rt := World.runtime ⟨[], [("https://eu/lotl.xml", ⟨"https", "eu"⟩), ("http://evil/", ⟨"http", "evil"⟩)]⟩
    let net : Network := fun _ _ url => if url = "https://eu/lotl.xml" then .redirect "http://evil/" else .failed ""
    ∃ r ∈ requested rt net .lotl "https://eu/lotl.xml" f,
      ¬ f.schemeOK rt r.url ∧ rt.toLower r.url.hostname ∉ f.allowed := by
  refine ⟨⟨"http://evil/", ⟨"http", "evil"⟩⟩, ?_, ?_⟩
  · decide +kernel
  · decide +kernel

open Symbolic in
-- to the client a port alone is a host: such a redirect is followed, although it has no host name
example :
    let f : Fetcher := { newFetcher 100 with allowed := ["eu"] }
    let rt := World.runtime ⟨[], [("https://eu/lotl.xml", ⟨"https", "eu"⟩), ("http://:8080/", ⟨"http", ":8080"⟩)]⟩
    let net : Network := fun _ _ url => if url = "https://eu/lotl.xml" then .redirect "http://:8080/" else .failed ""
    ⟨"http://:8080/", ⟨"http", ":8080"⟩⟩ ∈ requested rt net .lotl "https://eu/lotl.xml" f := by
  decide +kernel

end TrustAnchor.Ingest
