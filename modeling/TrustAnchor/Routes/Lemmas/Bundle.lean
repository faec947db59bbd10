import TrustAnchor.Routes.Router
import TrustAnchor.Trust.Lemmas.Filter

/-!
# What the bundle handlers answer

The two checks of the query agree, so a bundle request ends in one of five ways, and the tag that a
consumer was given matches exactly while the id is the same.
-/

namespace TrustAnchor.Routes

open Trust

/-! ## The query -/

theorem bundleQuery_ok {p : BundleParams} {q : Query} (h : bundleQuery p = .ok q) : q.Valid := by
  unfold bundleQuery at h
  simp only at h
  split_ifs at h with huse htype hkeys
  · split at h <;> cases h
  · split at h
    · cases h
    · cases h
      exact ⟨by simpa using huse, by simpa [or_iff_not_imp_left] using htype, by simpa using hkeys⟩

/-- The ways in which a bundle request ends; the error of `Filter` is not one of them. -/
theorem bundle_cases (rt : Runtime) (write : Snapshot → List Anchor → Bool → Body) (grace : Duration) (now : Time)
    (req : BundleRequest) (active : Option Snapshot) :
    (active = none ∧ bundle rt write grace now req active =
      { status := 503, body := .text "no trust snapshot loaded yet" }) ∨
    (∃ e, bundleQuery req.params = .error e ∧ active ≠ none ∧
      bundle rt write grace now req active = { status := 422, body := .invalid e }) ∨
    ∃ snap q anchors, active = some snap ∧ bundleQuery req.params = .ok q ∧ filter rt snap q = .ok anchors ∧
      let headers : Response :=
        { status := 200, etag := some (quoteETag snap.id), trustSnapshot := some snap.id
          trustStale := some (stale rt snap q.territories now grace) }
      bundle rt write grace now req active =
        if notModified req.ifNoneMatch snap.id then { headers with status := 304 }
        else { headers with body := write snap anchors (stale rt snap q.territories now grace) } := by
  cases active with
  | none => exact .inl ⟨rfl, rfl⟩
  | some snap =>
      cases hq : bundleQuery req.params with
      | error e => exact .inr (.inl ⟨e, rfl, by simp, by simp [bundle, hq]⟩)
      | ok q =>
          have hfilter : filter rt snap q = .ok _ := filter_of_valid (bundleQuery_ok hq)
          refine .inr (.inr ⟨snap, q, _, rfl, rfl, hfilter, ?_⟩)
          simp only [bundle, hq, hfilter]

/-! ## Entity tags -/

/-- Neither commas nor quotes nor spaces. -/
def Plain (s : String) : Prop := ∀ c ∈ s.toList, c ≠ ',' ∧ c ≠ '"' ∧ isSpace c = false

theorem plain_hexEncode (b : Bytes) : Plain (hexEncode b) := by
  intro c hc
  obtain ⟨n, hn, rfl⟩ := mem_hexEncode hc
  have hall : ∀ n < 16, hexDigit n ≠ ',' ∧ hexDigit n ≠ '"' ∧ isSpace (hexDigit n) = false := by decide
  exact hall n hn

theorem dropWhile_of_head {p : Char → Bool} {l : List Char} (h : ∀ c ∈ l.head?, p c = false) :
    l.dropWhile p = l := by
  cases l with
  | nil => rfl
  | cons c l => simp [h c rfl]

/-- Trimming leaves a text alone that neither starts nor ends with what is trimmed. -/
theorem trim_of_not {p : Char → Bool} {l : List Char} (hfirst : ∀ c ∈ l.head?, p c = false)
    (hlast : ∀ c ∈ l.getLast?, p c = false) : ((l.dropWhile p).reverse.dropWhile p).reverse = l := by
  rw [dropWhile_of_head hfirst, dropWhile_of_head (by simpa using hlast), List.reverse_reverse]

theorem Plain.trimQuotes {s : String} (h : Plain s) : trimQuotes s = s := by
  unfold Routes.trimQuotes
  rw [trim_of_not, String.ofList_toList]
  · intro c hc
    simpa using (h c (List.mem_of_mem_head? hc)).2.1
  · intro c hc
    simpa using (h c (List.mem_of_mem_getLast? hc)).2.1

theorem toList_quoteETag (id : String) : (quoteETag id).toList = '"' :: (id.toList ++ ['"']) := by
  simp [quoteETag]

theorem Plain.trimQuotes_quoteETag {id : String} (h : Plain id) : Routes.trimQuotes (quoteETag id) = id := by
  have hquote : ∀ c ∈ id.toList, decide (c = '"') = false := fun c hc => by simpa using (h c hc).2.1
  unfold Routes.trimQuotes
  rw [toList_quoteETag, List.dropWhile_cons_of_pos (by simp)]
  -- the quote in front is gone, and the one behind goes next
  cases hid : id.toList with
  | nil =>
      rw [← String.ofList_toList (s := id), hid]
      rfl
  | cons c l =>
      rw [hid] at hquote
      have hfront : ((c :: l) ++ ['"']).dropWhile (fun c => decide (c = '"')) = (c :: l) ++ ['"'] :=
        dropWhile_of_head (by simpa using hquote c)
      have hback : (c :: l).reverse.dropWhile (fun c => decide (c = '"')) = (c :: l).reverse := by
        refine dropWhile_of_head fun d hd => hquote d ?_
        exact List.mem_reverse.1 (List.mem_of_mem_head? hd)
      rw [hfront, List.reverse_append, List.reverse_singleton, List.singleton_append,
        List.dropWhile_cons_of_pos (by simp), hback, List.reverse_reverse, ← hid, String.ofList_toList]

/-- The tag of a snapshot matches exactly the snapshots with its id. -/
theorem notModified_quoteETag {id id' : String} (h : Plain id) (h' : Plain id') :
    notModified (quoteETag id) id' = true ↔ id = id' := by
  have hne : quoteETag id ≠ "" := by
    intro heq
    have hlist := congrArg String.toList heq
    rw [toList_quoteETag] at hlist
    cases hlist
  have hsplit : splitCommas (quoteETag id) = [quoteETag id] := by
    have hone : List.splitOn ',' ([','].intercalate [(quoteETag id).toList]) = [(quoteETag id).toList] := by
      refine List.splitOn_intercalate ',' (fun l hl hcomma => ?_) (by simp)
      rw [List.mem_singleton.1 hl, toList_quoteETag] at hcomma
      simp only [List.mem_cons, List.mem_append, List.not_mem_nil, or_false] at hcomma
      rcases hcomma with hc | hc | hc
      · cases hc
      · exact (h ',' hc).1 rfl
      · cases hc
    rw [List.intercalate_singleton] at hone
    rw [splitCommas, hone, List.map_singleton, String.ofList_toList]
  have htrim : trimSpace (quoteETag id) = quoteETag id := by
    have hspace : isSpace '"' = false := by decide
    unfold trimSpace
    rw [trim_of_not, String.ofList_toList] <;> rw [toList_quoteETag]
    · simpa using hspace
    · intro c hc
      rw [← List.cons_append, List.getLast?_concat] at hc
      cases hc
      exact hspace
  rw [notModified, if_neg hne, hsplit]
  simp [htrim, h.trimQuotes_quoteETag, h'.trimQuotes]

end TrustAnchor.Routes
