import TrustAnchor.Ingest.Lemmas.Fetching
import TrustAnchor.Ingest.Symbolic

/-!
# The size cap of a download

A body is read up to one byte past the cap, so that a longer one shows. The limit is computed in 64 bits.
-/

namespace TrustAnchor.Ingest

open Lib

variable {rt : Runtime} {net : Network} {site : Site} {url : String} {f : Fetcher} {body : Bytes}

/-- The request goes out and is answered with the body. -/
def Answered (rt : Runtime) (net : Network) (site : Site) (url : String) (f : Fetcher) (body : Bytes) : Prop :=
  ∃ u, rt.parseURL url = .ok u ∧ f.schemeOK rt u = true ∧ rt.toLower u.hostname ∈ f.allowed ∧
    (Fetcher.clientDo rt net site 10 0 url u f).1 = .ok (200, .ok body)

/-- The whole body up to the cap, and an error past it. -/
structure Whole (cap : Int) (body : Bytes) (r : Except Err Bytes) : Prop where
  complete : body.length ≤ cap → r = .ok body
  refused : cap < body.length → ∃ e, r = .error e
  unabridged : ∀ b, r = .ok b → b = body

theorem fetch_answered (h : Answered rt net site url f body) :
    (Fetcher.fetch rt net site url f).1 = Fetcher.readCapped f.maxSize url body := by
  obtain ⟨u, hu, hscheme, hallowed, hanswer⟩ := h
  simp [Fetcher.fetch, hu, hscheme, hallowed, hanswer, Fetcher.readResponse]

/-- Below the largest `int64` the limit is one more than the cap. -/
theorem readCapped_whole {cap : Int} (hpos : 0 < cap) (hmax : cap < 2 ^ 63 - 1) :
    Whole cap body (Fetcher.readCapped cap url body) := by
  have hlimit : wrapInt64 (cap + 1) = cap + 1 := wrapInt64_of_lt (by omega) (by omega)
  have hread : Fetcher.readCapped cap url body = if body.length ≤ cap then .ok body else
      .error (.failure ("ingest: " ++ url ++ " exceeds size cap of " ++ toString cap ++ " bytes")) := by
    unfold Fetcher.readCapped
    simp only [hlimit, if_neg (show ¬ cap + 1 ≤ 0 by omega), List.length_take]
    split_ifs with hlong hle
    · omega
    · rfl
    · rw [List.take_of_length_le (by omega)]
    · omega
  rw [hread]
  refine ⟨fun hle => if_pos hle, fun hlt => ⟨_, if_neg (by omega)⟩, fun b hb => ?_⟩
  split_ifs at hb
  cases hb
  rfl

/-- At the largest `int64` the limit is negative, and nothing is read. -/
theorem readCapped_largest : Fetcher.readCapped (2 ^ 63 - 1) url body = .ok [] := by
  simp [Fetcher.readCapped, wrapInt64]

/-- For every cap that the configuration admits and every body: a download gives the whole body up to the
cap and an error past it, exactly if the cap is not the largest `int64` or the body is empty. -/
theorem fetch_whole_iff (hpos : 0 < f.maxSize) (hmax : f.maxSize < 2 ^ 63)
    (h : Answered rt net site url f body) :
    Whole f.maxSize body (Fetcher.fetch rt net site url f).1 ↔ f.maxSize ≠ 2 ^ 63 - 1 ∨ body = [] := by
  rw [fetch_answered h]
  by_cases hlargest : f.maxSize = 2 ^ 63 - 1
  · rw [hlargest, readCapped_largest]
    constructor
    · intro hwhole
      exact .inr (hwhole.unabridged [] rfl).symm
    · rintro (hne | rfl)
      · exact absurd rfl hne
      · exact ⟨fun _ => rfl, fun hlt => absurd hlt (by simp), fun b hb => (Except.ok.inj hb).symm⟩
  · exact ⟨fun _ => .inl hlargest, fun _ => readCapped_whole hpos (by omega)⟩

/-- A fetcher that may ask the host of the list of the lists. -/
def capped (cap : Int) : Fetcher := { newFetcher cap with allowed := ["eu"] }

open Symbolic in
/-- With the largest cap the page is read as empty. -/
theorem fetch_blank : Answered growing.runtime (network (growingPages "1")) .lotl "https://eu/lotl.xml"
      (capped (2 ^ 63 - 1)) (ofText "L") ∧
    (Fetcher.fetch growing.runtime (network (growingPages "1")) .lotl "https://eu/lotl.xml"
      (capped (2 ^ 63 - 1))).1 = .ok [] := by
  have hanswered : Answered growing.runtime (network (growingPages "1")) .lotl "https://eu/lotl.xml"
      (capped (2 ^ 63 - 1)) (ofText "L") := ⟨⟨"https", "eu"⟩, by decide, by decide, by decide, rfl⟩
  exact ⟨hanswered, by rw [fetch_answered hanswered]; exact readCapped_largest⟩

open Symbolic in
/-- With a cap of 100 it is read as it is. -/
theorem fetch_whole_growing : Whole 100 (ofText "L")
    (Fetcher.fetch growing.runtime (network (growingPages "1")) .lotl "https://eu/lotl.xml" (capped 100)).1 := by
  have hanswered : Answered growing.runtime (network (growingPages "1")) .lotl "https://eu/lotl.xml"
      (capped 100) (ofText "L") := ⟨⟨"https", "eu"⟩, by decide, by decide, by decide, rfl⟩
  have hpos : 0 < (capped 100).maxSize := by decide
  have hmax : (capped 100).maxSize < 2 ^ 63 := by decide
  exact (fetch_whole_iff hpos hmax hanswered).2 (.inl (by decide))

end TrustAnchor.Ingest
