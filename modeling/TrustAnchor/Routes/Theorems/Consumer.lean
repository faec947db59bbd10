import TrustAnchor.Ingest.Lemmas.Cluster
import TrustAnchor.Ingest.Lemmas.Served
import TrustAnchor.Ingest.Symbolic
import TrustAnchor.Routes.Consumer
import TrustAnchor.Routes.Lemmas.Bundle

/-!
# The contract with consumers

A consumer that only downloads on a `200` has the certificates that are served, however its polls are
spread over instances, refreshes, approvals and restarts.
-/

namespace TrustAnchor.Routes

open Lib Ingest Trust

variable {rt : Runtime} {format : Format} {params : BundleParams}

/-! ## Equal tags -/

theorem plain_id {s : Snapshot} (h : WellFormed rt s) : Plain s.id := by
  rw [h.id]
  exact plain_hexEncode _

/-! ## Answers -/

/-- An answer that a consumer acts on comes from a served snapshot, with its tag and its staleness; a `200`
has the certificates of the bundle, a `304` was asked for with the tag. -/
theorem serve_cases {grace : Duration} {now : Time} {req : BundleRequest} {active : Option Snapshot}
    (h : (format.serve rt grace now req active).status = 200 ∨ (format.serve rt grace now req active).status = 304) :
    ∃ snap q b, active = some snap ∧ bundleQuery req.params = .ok q ∧ filter rt snap q = .ok b ∧
      (format.serve rt grace now req active).etag = some (quoteETag snap.id) ∧
      (format.serve rt grace now req active).trustStale = some (stale rt snap q.territories now grace) ∧
      ((format.serve rt grace now req active).status = 200 ∧
          (format.serve rt grace now req active).body.certs = b.map Anchor.certDER ∨
        (format.serve rt grace now req active).status = 304 ∧ notModified req.ifNoneMatch snap.id = true) := by
  have hbundle : ∃ write, format.serve rt = bundle rt write ∧
      ∀ snap anchors st, (write snap anchors st).certs = anchors.map Anchor.certDER := by
    cases format with
    | pem => exact ⟨fun _ anchors _ => .pem (anchors.map Anchor.certDER), rfl, fun _ _ _ => rfl⟩
    | json => exact ⟨fun snap anchors st => .anchors (newAnchors snap anchors st), rfl, fun _ _ _ => rfl⟩
  obtain ⟨write, hserve, hcerts⟩ := hbundle
  rw [hserve] at h ⊢
  obtain ⟨-, heq⟩ | ⟨e, -, -, heq⟩ | ⟨snap, q, b, hactive, hq, hb, heq⟩ :=
    bundle_cases rt write grace now req active
  · simp [heq] at h
  · simp [heq] at h
  · refine ⟨snap, q, b, hactive, hq, hb, ?_⟩
    rw [heq]
    cases hmatch : notModified req.ifNoneMatch snap.id with
    | false => exact ⟨rfl, rfl, .inl ⟨rfl, hcerts ..⟩⟩
    | true => exact ⟨rfl, rfl, .inr ⟨rfl, rfl⟩⟩

theorem keep_of_ok {res : Response} (h : res.status = 200) (copy : Option Copy) :
    keep res copy = some ⟨res.etag.getD "", res.body.certs⟩ := if_pos h

theorem keep_of_ne {res : Response} (h : res.status ≠ 200) (copy : Option Copy) : keep res copy = copy := if_neg h

/-! ## Runs -/

/-- All instances serve well-formed snapshots, and the consumer's copy is the bundle of one. -/
structure Deployed (rt : Runtime) (params : BundleParams) (d : Deployment) : Prop where
  cluster : d.cluster.Traced rt (fun _ => True) (WellFormed rt)
  copy : ∀ c ∈ d.copy, ∃ s q b, WellFormed rt s ∧ bundleQuery params = .ok q ∧ filter rt s q = .ok b ∧
    c = ⟨quoteETag s.id, b.map Anchor.certDER⟩

namespace Deployed

variable {d : Deployment}

theorem wellFormed (h : Deployed rt params d) {i : Nat} {s : Snapshot} (hs : (d.cluster.view i).active = some s) :
    WellFormed rt s := (h.cluster i).of_active s hs

theorem poll (h : Deployed rt params d) (i : Nat) (now : Time) (grace : Duration) :
    Deployed rt params (d.step rt format params (.poll i now grace)) := by
  refine ⟨h.cluster, fun c hc => ?_⟩
  change c ∈ keep (d.answer rt format params i now grace) d.copy at hc
  by_cases hstatus : (d.answer rt format params i now grace).status = 200
  · rw [keep_of_ok hstatus] at hc
    obtain ⟨snap, q, b, hsnap, hq, hb, hetag, -, ⟨-, hcerts⟩ | ⟨hmodified, -⟩⟩ := serve_cases (.inl hstatus)
    · refine ⟨snap, q, b, h.wellFormed hsnap, hq, hb, ?_⟩
      rw [Deployment.answer, hetag, hcerts] at hc
      exact (Option.some.inj hc).symm
    · rw [Deployment.answer, hmodified] at hstatus
      cases hstatus
  · rw [keep_of_ne hstatus] at hc
    exact h.copy c hc

theorem run (actions : List Action) (maxSize : Int) :
    Deployed rt params ((Deployment.empty maxSize).run rt format params actions) := by
  refine runFrom_invariant (I := Deployed rt params) ?_ actions ⟨.empty maxSize, by simp [Deployment.empty]⟩
  intro d a h
  cases a with
  | operate i cfg op => exact ⟨h.cluster.step (wellFormed_kept rt) trivial i op, h.copy⟩
  | poll i now grace => exact h.poll i now grace

end Deployed

/-- However the polls of a consumer are spread over instances that refresh, approve and restart on one store:
after an answer with `200` or `304` the consumer holds, up to order, the certificates that the instance which
answered serves to its query, under the tag of what is served, and the staleness it was told is that of the
moment. -/
theorem consumer_coherent (hsha : Function.Injective rt.sha256) (hjson : Function.Injective rt.marshalID)
    (format : Format) (params : BundleParams) (actions : List Action) (maxSize : Int) (i : Nat) (now : Time)
    (grace : Duration) :
    let d := (Deployment.empty maxSize).run rt format params actions
    let res := d.answer rt format params i now grace
    res.status = 200 ∨ res.status = 304 →
      ∃ copy snap q b, (d.step rt format params (.poll i now grace)).copy = some copy ∧
        (d.cluster.view i).active = some snap ∧ bundleQuery params = .ok q ∧ filter rt snap q = .ok b ∧
        copy.etag = quoteETag snap.id ∧ copy.certs.Perm (b.map Anchor.certDER) ∧
        res.trustStale = some (stale rt snap q.territories now grace) := by
  intro d res hstatus
  have h : Deployed rt params d := .run actions maxSize
  obtain ⟨snap, q, b, hsnap, hq, hb, hetag, hstale, ⟨hok, hcerts⟩ | ⟨hmodified, hmatch⟩⟩ := serve_cases hstatus
  · -- a new copy
    refine ⟨⟨quoteETag snap.id, b.map Anchor.certDER⟩, snap, q, b, ?_, hsnap, hq, hb, rfl, .refl _, hstale⟩
    refine (keep_of_ok hok d.copy).trans ?_
    rw [hetag, hcerts]
    rfl
  · -- the copy that was there
    have hcopy : (d.step rt format params (.poll i now grace)).copy = d.copy := by
      refine keep_of_ne ?_ d.copy
      rw [Deployment.answer, hmodified]
      decide
    cases hheld : d.copy with
    | none =>
        rw [hheld] at hmatch
        cases hmatch
    | some copy =>
        obtain ⟨s, q', b', hs, hq', hb', rfl⟩ := h.copy copy hheld
        obtain rfl : q' = q := Except.ok.inj (hq'.symm.trans hq)
        rw [hheld] at hmatch
        have hwf := h.wellFormed hsnap
        have hid : s.id = snap.id := (notModified_quoteETag (plain_id hs) (plain_id hwf)).1 hmatch
        exact ⟨_, snap, q', b, hcopy.trans hheld, hsnap, hq, hb, by rw [hid],
          certs_perm hsha hjson hs hwf hid hb' hb, hstale⟩

section Growing

open Ingest.Symbolic

/-- Two instances on one store: the second one starts on what the first one has stored. -/
def twoInstances : List Action :=
  [.operate 0 (config ["EE"] .auto 0) (install ["B"]),
    .operate 0 (config ["EE"] .auto 0) (Symbolic.refresh 5 (growingPages "1")), .poll 0 6 0,
    .operate 1 (config ["EE"] .auto 0) (install ["B"])]

/-- The second instance restored what the first one stored, and confirms the consumer's copy. -/
theorem consumer_coherent_twoInstances :
    let d := (Deployment.empty 100).run growing.exact .pem {} twoInstances
    let res := d.answer growing.exact .pem {} 1 6 0
    res.status = 304 ∧ ∃ copy snap q b, (d.step growing.exact .pem {} (.poll 1 6 0)).copy = some copy ∧
      (d.cluster.view 1).active = some snap ∧ bundleQuery {} = .ok q ∧ filter growing.exact snap q = .ok b ∧
      copy.etag = quoteETag snap.id ∧ copy.certs.Perm (b.map Anchor.certDER) ∧
      res.trustStale = some (stale growing.exact snap q.territories 6 0) := by
  have hstatus : (((Deployment.empty 100).run growing.exact .pem {} twoInstances).answer growing.exact .pem {}
      1 6 0).status = 304 := by decide +kernel
  exact ⟨hstatus, consumer_coherent growing.exact_sha256_injective growing.exact_marshalID_injective .pem {}
    twoInstances 100 1 6 0 (.inr hstatus)⟩

end Growing

end TrustAnchor.Routes
