import TrustAnchor.Ingest.SourceNational

/-!
# What the fetcher's state does to its answers

A download changes nothing but the log of requests, and whether it goes out depends on the rest of the
state only.
-/

namespace TrustAnchor.Ingest

open Lib

variable {rt : Runtime}

namespace Fetcher

theorem schemeOK_congr {f g : Fetcher} (h : f.httpAllowed = g.httpAllowed) (u : Url) :
    f.schemeOK rt u = g.schemeOK rt u := by
  simp [schemeOK, h]

/-- The state without the log. -/
def rules (f : Fetcher) : Fetcher := { f with sent := [] }

/-- The two states differ in their logs at most. -/
def SameRules (f g : Fetcher) : Prop := f.rules = g.rules

namespace SameRules

variable {f g : Fetcher}

theorem maxSize (h : SameRules f g) : f.maxSize = g.maxSize := (Fetcher.mk.inj h).1

theorem allowed (h : SameRules f g) : f.allowed = g.allowed := (Fetcher.mk.inj h).2.1

theorem httpAllowed (h : SameRules f g) : f.httpAllowed = g.httpAllowed := (Fetcher.mk.inj h).2.2.1

theorem schemeOK (h : SameRules f g) (u : Url) : f.schemeOK rt u = g.schemeOK rt u :=
  schemeOK_congr h.httpAllowed u

end SameRules

/-! ## Downloads -/

theorem clientDo_rules (net : Network) (site : Site) (fuel n : Nat) (raw : String) (u : Url)
    (f : Fetcher) : (clientDo rt net site fuel n raw u f).2.rules = f.rules := by
  suffices h : Fallible.Keeps (fun g => g.rules = f.rules) (clientDo rt net site fuel n raw u) from
    h f rfl
  induction fuel generalizing n raw u with
  | zero => exact Fallible.Keeps.fail _
  | succ fuel ih =>
      refine Fallible.Keeps.bind (Fallible.Keeps.modify fun _ h => h) fun _ => ?_
      split
      · exact Fallible.Keeps.fail _
      · exact Fallible.Keeps.pure _
      · split
        · exact Fallible.Keeps.fail _
        · split_ifs
          · exact Fallible.Keeps.fail _
          · exact Fallible.Keeps.fail _
          · exact ih _ _ _

/-- The answer does not look at the state. -/
theorem clientDo_fst {net net' : Network} {site : Site} (hnet : net site = net' site)
    (fuel n : Nat) (raw : String) (u : Url) (f g : Fetcher) :
    (clientDo rt net site fuel n raw u f).1 = (clientDo rt net' site fuel n raw u g).1 := by
  suffices h : Fallible.Agree (fun _ _ => True) (clientDo rt net site fuel n raw u)
      (clientDo rt net' site fuel n raw u) from (h f g trivial).1
  induction fuel generalizing n raw u with
  | zero => exact Fallible.Agree.fail _
  | succ fuel ih =>
      refine Fallible.Agree.bind (Fallible.Agree.modify fun _ _ h => h) fun _ => ?_
      rw [hnet]
      split
      · exact Fallible.Agree.fail _
      · exact Fallible.Agree.pure _
      · split
        · exact Fallible.Agree.fail _
        · split_ifs
          · exact Fallible.Agree.fail _
          · exact Fallible.Agree.fail _
          · exact ih _ _ _

theorem fetch_rules (net : Network) (site : Site) (url : String) (f : Fetcher) :
    (fetch rt net site url f).2.rules = f.rules := by
  suffices h : Fallible.Keeps (fun g => g.rules = f.rules) (fetch rt net site url) from h f rfl
  unfold fetch
  split
  · exact Fallible.Keeps.fail _
  · refine Fallible.Keeps.bind Fallible.Keeps.get fun _ => ?_
    split
    · exact Fallible.Keeps.fail _
    split
    · exact Fallible.Keeps.fail _
    refine Fallible.Keeps.bind (Fallible.Keeps.attempt fun g hg => ?_) fun r => ?_
    · rw [clientDo_rules, hg]
    · exact Fallible.Keeps.ofExcept _

/-- The answer looks at the state only for the size cap, the scheme and the one host. -/
theorem fetch_fst {net net' : Network} {site : Site} (hnet : net site = net' site) {url : String}
    {f g : Fetcher} (hmax : f.maxSize = g.maxSize) (hhttp : f.httpAllowed = g.httpAllowed)
    (hhost : ∀ u, rt.parseURL url = .ok u →
      (rt.toLower u.hostname ∈ f.allowed ↔ rt.toLower u.hostname ∈ g.allowed)) :
    (fetch rt net site url f).1 = (fetch rt net' site url g).1 := by
  cases hu : rt.parseURL url with
  | error e => simp [fetch, hu]
  | ok u =>
      have hscheme : f.schemeOK rt u = g.schemeOK rt u := schemeOK_congr hhttp u
      have hclient : (clientDo rt net site 10 0 url u f).1 = (clientDo rt net' site 10 0 url u g).1 :=
        clientDo_fst hnet ..
      by_cases hok : g.schemeOK rt u <;> by_cases hmem : rt.toLower u.hostname ∈ g.allowed <;>
        simp [fetch, hu, Fallible.bind_run, hscheme, hok, hhost u hu, hmem, hclient, hmax]

theorem fetch_agree {net net' : Network} {site : Site} (hnet : net site = net' site)
    (url : String) :
    Fallible.Agree SameRules (fetch rt net site url) (fetch rt net' site url) := by
  intro f g h
  refine ⟨fetch_fst hnet h.maxSize h.httpAllowed fun _ _ => by rw [h.allowed], ?_⟩
  rw [SameRules, fetch_rules, fetch_rules]
  exact h

theorem fetchDigest_rules (net : Network) (site : Site) (url : String) (f : Fetcher) :
    (fetchDigest rt net site url f).2.rules = f.rules :=
  (Fallible.bind_keeps (fun _ _ => rfl) f).trans (fetch_rules ..)

theorem fetchDigest_agree {net net' : Network} {site : Site} (hnet : net site = net' site)
    (url : String) :
    Fallible.Agree SameRules (fetchDigest rt net site url) (fetchDigest rt net' site url) :=
  .bind (fetch_agree hnet _) fun _ => .pure _

/-! ## The allow-list -/

/-- `AllowURL` as a whole: the host is added exactly when the scheme passes. -/
theorem allowURL_run (url : String) (f : Fetcher) : allowURL rt url f =
    match rt.parseURL url with
    | .error e => (.error (errInvalidURL url e), f)
    | .ok u =>
      if f.schemeOK rt u then
        (.ok (), if u.hostname = "" then f else { f with allowed := f.allowed.insert (rt.toLower u.hostname) })
      else (.error (.errEgressBlocked (url.quote ++ " is not https")), f) := by
  unfold allowURL
  cases rt.parseURL url with
  | error e => rfl
  | ok u =>
      simp only [Fallible.bind_run, Fallible.get_run, Bool.not_eq_true']
      by_cases h : f.schemeOK rt u <;> simp [h, allow]

theorem allow_agree (host : String) : Fallible.Agree SameRules (allow rt host) (allow rt host) := by
  refine Fallible.Agree.modify fun f g h => ?_
  rw [h.allowed]
  split_ifs
  · exact h
  · simp [SameRules, rules, h.maxSize, h.httpAllowed]

theorem allowURL_agree (url : String) :
    Fallible.Agree SameRules (allowURL rt url) (allowURL rt url) := by
  unfold allowURL
  split
  · exact Fallible.Agree.fail _
  · refine Fallible.Agree.get_bind fun f g h => ?_
    rw [h.schemeOK]
    split_ifs
    · exact Fallible.Agree.fail _ f g h
    · exact allow_agree _ f g h

theorem allowHTTPFor_agree (url : String) :
    Fallible.Agree SameRules (allowHTTPFor rt url) (allowHTTPFor rt url) := by
  unfold allowHTTPFor
  split
  · exact Fallible.Agree.fail _
  · split_ifs
    · exact Fallible.Agree.fail _
    · refine Fallible.Agree.modify fun f g h => ?_
      simp [SameRules, rules, h.maxSize, h.httpAllowed, h.allowed]

/-! ## Failures

Nothing that goes wrong in the fetcher reads as "unchanged", and every failure has a text. -/

/-- A failure with a text, which is not the sentinel for an unchanged list. -/
def Failure (e : Err) : Prop := e.unchanged = false ∧ e.msg ≠ ""

theorem clientDo_fails (net : Network) (site : Site) (fuel n : Nat) (raw : String) (u : Url) :
    Fallible.FailsWith (fun e => e.unchanged = false) (clientDo rt net site fuel n raw u) := by
  induction fuel generalizing n raw u with
  | zero => exact .fail rfl
  | succ fuel ih =>
      refine .bind (.modify _) fun _ => ?_
      split
      · exact .fail rfl
      · exact .pure _
      · split
        · exact .fail rfl
        · split_ifs
          · exact .fail rfl
          · exact .fail rfl
          · exact ih _ _ _

theorem readCapped_fails {maxSize : Int} {url : String} {body : Bytes} {e : Err}
    (h : readCapped maxSize url body = .error e) : Failure e := by
  unfold readCapped at h
  simp only at h
  generalize (if wrapInt64 (maxSize + 1) ≤ 0 then [] else body.take (wrapInt64 (maxSize + 1)).toNat) = read at h
  split_ifs at h
  rw [← Except.error.inj h]
  exact ⟨rfl, by simp [Err.failure]⟩

theorem readResponse_fails {maxSize : Int} {url : String}
    {answer : Except Err (Nat × Except String Bytes)} (h : ∀ e, answer = .error e → e.unchanged = false)
    {e : Err} (he : readResponse maxSize url answer = .error e) : Failure e := by
  unfold readResponse at he
  split at he
  · rename_i e₀
    cases he
    exact ⟨h e₀ rfl, by simp [Err.wrap]⟩
  · split at he
    · cases he
      exact ⟨rfl, by simp [Err.failure]⟩
    · split at he
      · cases he
        exact ⟨rfl, by simp [Err.failure]⟩
      · exact readCapped_fails he

theorem errInvalidURL_failure (raw e : String) : Failure (errInvalidURL raw e) :=
  ⟨rfl, by simp [errInvalidURL, Err.failure]⟩

theorem errEgressBlocked_failure (detail : String) : Failure (Err.errEgressBlocked detail) := by
  unfold Failure Err.errEgressBlocked
  simp

theorem fetch_fails (net : Network) (site : Site) (url : String) :
    Fallible.FailsWith Failure (fetch rt net site url) := by
  unfold fetch
  split
  · exact .fail (errInvalidURL_failure _ _)
  · refine .bind .get fun f => ?_
    split
    · exact .fail (errEgressBlocked_failure _)
    split
    · exact .fail (errEgressBlocked_failure _)
    refine .bind_of_ok (.attempt _) fun answer g hanswer => .ofExcept fun e he => ?_
    cases hanswer
    exact readResponse_fails (fun e => clientDo_fails _ _ _ _ _ _ g e) he

theorem allowURL_fails (url : String) : Fallible.FailsWith Failure (allowURL rt url) := by
  unfold allowURL
  split
  · exact .fail (errInvalidURL_failure _ _)
  · refine .bind .get fun f => ?_
    split_ifs
    · exact .fail (errEgressBlocked_failure _)
    · exact .modify _

theorem allowHTTPFor_fails (url : String) : Fallible.FailsWith Failure (allowHTTPFor rt url) := by
  unfold allowHTTPFor
  split
  · exact .fail (errInvalidURL_failure _ _)
  · split_ifs
    · exact .fail ⟨rfl, by simp [Err.failure]⟩
    · exact .modify _

/-! ## Answers

What is downloaded is the body of a 200 answer, up to the size limit. -/

theorem clientDo_response {net : Network} {site : Site} {fuel n : Nat} {raw : String} {u : Url} {f : Fetcher}
    {status : Nat} {body : Except String Bytes}
    (h : (clientDo rt net site fuel n raw u f).1 = .ok (status, body)) :
    ∃ m url, net site m url = .response status body := by
  induction fuel generalizing n raw u f with
  | zero => cases h
  | succ fuel ih =>
      simp only [clientDo, Fallible.modify_bind_run] at h
      cases hnet : net site n raw with
      | failed e =>
          rw [hnet] at h
          cases h
      | response status' body' =>
          rw [hnet] at h
          cases h
          exact ⟨n, raw, hnet⟩
      | redirect location =>
          simp only [hnet] at h
          cases hparse : rt.parseURL location with
          | error e =>
              rw [hparse] at h
              cases h
          | ok v =>
              simp only [hparse] at h
              split_ifs at h
              · cases h
              · cases h
              · exact ih h

theorem readResponse_eq_ok {maxSize : Int} {url : String} {answer : Except Err (Nat × Except String Bytes)}
    {raw : Bytes} (h : readResponse maxSize url answer = .ok raw) :
    ∃ body k, answer = .ok (200, .ok body) ∧ raw = body.take k := by
  unfold readResponse at h
  split at h
  · cases h
  · rename_i status body
    split_ifs at h with hstatus
    split at h
    · cases h
    · rename_i body
      rw [not_not.1 hstatus]
      unfold readCapped at h
      simp only at h
      split_ifs at h with hlimit
      · cases h
        exact ⟨body, 0, rfl, rfl⟩
      · cases h
        exact ⟨body, _, rfl, rfl⟩

theorem fetch_response {net : Network} {site : Site} {url : String} {f : Fetcher} {raw : Bytes}
    (h : (fetch rt net site url f).1 = .ok raw) :
    ∃ n u body k, net site n u = .response 200 (.ok body) ∧ raw = body.take k := by
  unfold fetch at h
  cases hu : rt.parseURL url with
  | error e =>
      rw [hu] at h
      cases h
  | ok u =>
      simp only [hu, Fallible.get_bind_run] at h
      split_ifs at h
      · cases h
      · simp only [Fallible.attempt_bind_run, Fallible.ofExcept_run] at h
        obtain ⟨body, k, hanswer, rfl⟩ := readResponse_eq_ok h
        obtain ⟨n, u', hnet⟩ := clientDo_response hanswer
        exact ⟨n, u', body, k, hnet, rfl⟩
      · cases h

/-! ## Pivots

A pivot is fetched right after its host was allowed, so the allow-list decides nothing. -/

/-- What the answer to a pivot download depends on. -/
structure PivotRules (f g : Fetcher) : Prop where
  maxSize : f.maxSize = g.maxSize
  httpAllowed : f.httpAllowed = g.httpAllowed
  noHost : "" ∈ f.allowed ↔ "" ∈ g.allowed

theorem PivotRules.refl (f : Fetcher) : PivotRules f f := ⟨rfl, rfl, Iff.rfl⟩

theorem PivotRules.symm {f g : Fetcher} (h : PivotRules f g) : PivotRules g f :=
  ⟨h.maxSize.symm, h.httpAllowed.symm, h.noHost.symm⟩

theorem PivotRules.trans {f g k : Fetcher} (h : PivotRules f g) (h' : PivotRules g k) :
    PivotRules f k :=
  ⟨h.maxSize.trans h'.maxSize, h.httpAllowed.trans h'.httpAllowed, h.noHost.trans h'.noHost⟩

theorem SameRules.pivotRules {f g : Fetcher} (h : SameRules f g) : PivotRules f g :=
  ⟨h.maxSize, h.httpAllowed, by rw [h.allowed]⟩

theorem allowURL_pivotRules (url : String) (f : Fetcher) : PivotRules (allowURL rt url f).2 f := by
  rw [allowURL_run]
  split
  · exact .refl f
  · rename_i u _
    split_ifs with _ hhost
    · exact .refl f
    · refine ⟨rfl, rfl, ?_⟩
      have hne : "" ≠ rt.toLower u.hostname := fun he => hhost (rt.toLower_eq_empty.1 he.symm)
      simp [hne]
    · exact .refl f

theorem fetchPivot_pivotRules (net : Network) (ref : PivotRef) (f : Fetcher) :
    PivotRules (fetchPivot rt net ref f).2 f := by
  refine Fallible.Keeps.bind (I := fun g => PivotRules g f) ?_ (fun allowed => ?_) f (.refl f)
  · exact .attempt fun g hg => (allowURL_pivotRules ref.url g).trans hg
  · refine .bind (.ofExcept _) fun _ => .bind (.attempt fun g hg => ?_) fun _ => .ofExcept _
    have hrules : SameRules (fetch rt net (.pivot ref.seq) ref.url g).2 g := fetch_rules ..
    exact hrules.pivotRules.trans hg

theorem allowURL_fst (url : String) {f g : Fetcher} (h : f.httpAllowed = g.httpAllowed) :
    (allowURL rt url f).1 = (allowURL rt url g).1 := by
  rw [allowURL_run, allowURL_run]
  split
  · rfl
  · rw [schemeOK_congr h]
    split_ifs <;> rfl

/-- After its own `AllowURL`, a download goes out from either state or from none. -/
theorem fetch_fst_of_allowURL (net : Network) (site : Site) {url : String} {f g : Fetcher}
    (h : PivotRules f g) (hok : (allowURL rt url f).1 = .ok ()) :
    (fetch rt net site url (allowURL rt url f).2).1 =
      (fetch rt net site url (allowURL rt url g).2).1 := by
  have hrules : PivotRules (allowURL rt url f).2 (allowURL rt url g).2 :=
    ((allowURL_pivotRules url f).trans h).trans (allowURL_pivotRules url g).symm
  refine fetch_fst rfl hrules.maxSize hrules.httpAllowed ?_
  intro u hu
  have hokg := hok
  rw [allowURL_fst url h.httpAllowed] at hokg
  rw [allowURL_run, hu] at hok hokg
  have hf : f.schemeOK rt u = true := by
    by_contra hs
    simp [hs] at hok
  have hg : g.schemeOK rt u = true := by
    by_contra hs
    simp [hs] at hokg
  by_cases hhost : u.hostname = ""
  · simpa [hhost, Runtime.toLower] using hrules.noHost
  · rw [allowURL_run, allowURL_run, hu]
    simp [hf, hg, hhost]

theorem fetchPivot_fst (net : Network) (ref : PivotRef) {f g : Fetcher} (h : PivotRules f g) :
    (fetchPivot rt net ref f).1 = (fetchPivot rt net ref g).1 := by
  have hallow : (allowURL rt ref.url f).1 = (allowURL rt ref.url g).1 :=
    allowURL_fst ref.url h.httpAllowed
  simp only [fetchPivot, Fallible.attempt_bind_run, ← hallow]
  cases hok : (allowURL rt ref.url f).1 with
  | error e => simp [orPivotErr]
  | ok u => simp [orPivotErr, fetch_fst_of_allowURL net (.pivot ref.seq) h hok]

end Fetcher

end TrustAnchor.Ingest
