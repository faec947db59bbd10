import TrustAnchor.Ingest.Lemmas.Changes
import TrustAnchor.Ingest.Symbolic

/-!
# Changes in what is skipped

Two reports of skipped services are compared by keys that join names of the lists. What the keys do not tell
apart is the same to the service.
-/

namespace TrustAnchor.Ingest

open Lib Tsl Trust

/-- What tells a skipped service. -/
def skippedTuple (s : SkippedService) : String × String × String × String :=
  (s.tspName, s.serviceName, s.fingerprintSHA256, s.reason)

/-- Different services that read alike once their names are joined by slashes. -/
def Ambiguous (x y : SkippedService) : Prop :=
  skippedTuple x ≠ skippedTuple y ∧
    "/".intercalate [x.tspName, x.serviceName, x.fingerprintSHA256, x.reason] =
      "/".intercalate [y.tspName, y.serviceName, y.fingerprintSHA256, y.reason]

/-- Reports of services in `S` are equal if they have the same tuples, each as often, and a cycle that
changes such a report is seen and written. -/
structure Tells (S : SkippedService → Prop) : Prop where
  equal : ∀ a b, (∀ s ∈ a, S s) → (∀ s ∈ b, S s) →
    (Service.skippedEqual a b = true ↔ (a.map skippedTuple).Perm (b.map skippedTuple))
  persisted : ∀ (p next : Snapshot) (pt t : Territory), t ∈ next.territories → p.territory t.code = some pt →
    (∀ s ∈ pt.skipped, S s) → (∀ s ∈ t.skipped, S s) →
    ¬ (pt.skipped.map skippedTuple).Perm (t.skipped.map skippedTuple) →
    Service.territoryStateChanged p next = true ∧ Service.persists (some p) next = true

variable {S : SkippedService → Prop} {a b : List SkippedService}

theorem skippedKey_joined (s : SkippedService) : Service.skippedKey s =
    "/".intercalate [s.tspName, s.serviceName, s.fingerprintSHA256, s.reason] := rfl

/-- The keys are made of the tuples. -/
theorem perm_keys_of_perm_tuples (h : (a.map skippedTuple).Perm (b.map skippedTuple)) :
    (a.map Service.skippedKey).Perm (b.map Service.skippedKey) := by
  have hmap : ∀ l : List SkippedService, (l.map skippedTuple).map
      (fun t => t.1 ++ "/" ++ t.2.1 ++ "/" ++ t.2.2.1 ++ "/" ++ t.2.2.2) = l.map Service.skippedKey := by
    intro l
    rw [List.map_map]
    rfl
  rw [← hmap a, ← hmap b]
  exact h.map _

/-- Where a key stands for one tuple, the tuples can be read off the keys. -/
theorem perm_tuples_of_perm_keys
    (hS : ∀ x y, S x → S y → Service.skippedKey x = Service.skippedKey y → skippedTuple x = skippedTuple y)
    (ha : ∀ s ∈ a, S s) (hb : ∀ s ∈ b, S s)
    (h : (a.map Service.skippedKey).Perm (b.map Service.skippedKey)) :
    (a.map skippedTuple).Perm (b.map skippedTuple) := by
  classical
  let tupleOf : String → String × String × String × String := fun k =>
    if hk : ∃ s, S s ∧ Service.skippedKey s = k then skippedTuple hk.choose else ("", "", "", "")
  have htuple : ∀ s, S s → tupleOf (Service.skippedKey s) = skippedTuple s := by
    intro s hs
    have hk : ∃ s', S s' ∧ Service.skippedKey s' = Service.skippedKey s := ⟨s, hs, rfl⟩
    simp only [tupleOf, dif_pos hk]
    exact hS _ _ hk.choose_spec.1 hs hk.choose_spec.2
  have hmap : ∀ l : List SkippedService, (∀ s ∈ l, S s) →
      (l.map Service.skippedKey).map tupleOf = l.map skippedTuple := by
    intro l hl
    rw [List.map_map]
    exact List.map_congr_left fun s hs => htuple s (hl s hs)
  rw [← hmap a ha, ← hmap b hb]
  exact h.map tupleOf

theorem territoryStateChanged_of_skipped {p next : Snapshot} {pt t : Territory} (ht : t ∈ next.territories)
    (hpt : p.territory t.code = some pt) (h : Service.skippedEqual pt.skipped t.skipped = false) :
    Service.territoryStateChanged p next = true ∧ Service.persists (some p) next = true := by
  have hchanged : Service.territoryStateChanged p next = true := by
    unfold Service.territoryStateChanged
    rw [List.any_eq_true]
    exact ⟨t, ht, by simp [hpt, h]⟩
  exact ⟨hchanged, by simp [Service.persists, Service.cycleChanged, hchanged]⟩

/-- For every set of skipped services: reports of them are compared as multisets, and every change in them is
seen and written, exactly if no two of them are ambiguous. -/
theorem skipped_told_iff (S : SkippedService → Prop) : Tells S ↔ ∀ x y, S x → S y → ¬ Ambiguous x y := by
  constructor
  · intro h x y hx hy hxy
    have hequal : Service.skippedEqual [x] [y] = true := by simp [skippedEqual_iff, skippedKey_joined, hxy.2]
    exact hxy.1 (by simpa using (h.equal [x] [y] (by simpa using hx) (by simpa using hy)).1 hequal)
  · intro hclear
    have hS : ∀ x y, S x → S y → Service.skippedKey x = Service.skippedKey y → skippedTuple x = skippedTuple y := by
      intro x y hx hy hkey
      by_contra hne
      exact hclear x y hx hy ⟨hne, by rw [← skippedKey_joined, ← skippedKey_joined, hkey]⟩
    have hequal : ∀ a b, (∀ s ∈ a, S s) → (∀ s ∈ b, S s) →
        (Service.skippedEqual a b = true ↔ (a.map skippedTuple).Perm (b.map skippedTuple)) := by
      intro a b ha hb
      rw [skippedEqual_iff]
      exact ⟨perm_tuples_of_perm_keys hS ha hb, perm_keys_of_perm_tuples⟩
    refine ⟨hequal, fun p next pt t ht hpt hold hnew hperm => ?_⟩
    refine territoryStateChanged_of_skipped ht hpt ?_
    rw [← Bool.not_eq_true, hequal _ _ hold hnew]
    exact hperm

/-- A provider and a service that were skipped, with nothing decoded. -/
def unread (tspName serviceName : String) : SkippedService :=
  { tspName, serviceName, reason := skipNoCertificate, detail := "", fingerprintSHA256 := "", keyAlgorithm := ""
    curve := "" }

open Symbolic in
/-- A snapshot of one territory that skips the service. -/
def skipping (s : SkippedService) : Snapshot :=
  { blank with territories := [{ code := "EE", skipped := [s] }] }

/-- A slash of a name is read as the one between the names. -/
theorem skipped_untold :
    Service.skippedEqual [unread "A/B" "C"] [unread "A" "B/C"] = true ∧
      ¬ ([unread "A/B" "C"].map skippedTuple).Perm ([unread "A" "B/C"].map skippedTuple) ∧
      Service.territoryStateChanged (skipping (unread "A/B" "C")) (skipping (unread "A" "B/C")) = false ∧
      Service.persists (some (skipping (unread "A/B" "C"))) (skipping (unread "A" "B/C")) = false := by
  decide +kernel

end TrustAnchor.Ingest
