import TrustAnchor.Lib.Order
import TrustAnchor.Lib.Result
import TrustAnchor.Trust.Internal

/-!
# What a declaration file loads to

A load that succeeds gives what the files say; the time only decides whether it succeeds.
-/

namespace TrustAnchor.Trust

open Lib Tsl

variable {rt : Runtime} {readFile : String → Except String Bytes} {baseDir : String} {now now' : Time}

/-! ## Entries -/

/-- The anchor of an entry for one of its types. -/
def declaredAnchor (rt : Runtime) (e : InternalAnchor) (cert : Certificate) (t : String) : Anchor :=
  { territory := rt.toUpper (trimSpace e.territory), source := sourceInternal, tspName := e.name
    serviceName := cert.commonName, serviceType := typeIdentifier t
    status := if e.status = "" then grantedStatusURI else e.status
    statusStartingTime := cert.notBefore, certDER := cert.raw, fingerprintSHA256 := rt.sha256hex cert.raw
    subject := cert.subject, notBefore := cert.notBefore
    notAfter := if e.validUntil ≠ zeroTime && e.validUntil < cert.notAfter then e.validUntil
      else cert.notAfter
    qualifiers := [], qcWithQSCD := false, uses := [], keyAlgorithm := (spkiAlgorithm rt cert.raw).1
    curve := (spkiAlgorithm rt cert.raw).2, type := t, useCases := e.useCases, tlSequence := 0 }

/-- The types that an entry declares: a single one, or a list of different types of the taxonomy. -/
def DeclaresTypes (e : InternalAnchor) (types : List String) : Prop :=
  (e.hasTypes = false ∧ types = [if trimSpace e.type = untypedAlias then "" else trimSpace e.type] ∧
      (trimSpace e.type = "" ∨ trimSpace e.type = untypedAlias ∨ validAnchorType (trimSpace e.type) = true)) ∨
    (e.hasTypes = true ∧ e.hasType = false ∧ e.types ≠ [] ∧ types = e.types.map trimSpace ∧ types.Nodup ∧
      ∀ t ∈ types, validAnchorType t = true)

theorem declaredRoles_eq_ok {e : InternalAnchor} {out raws types : List String} (hout : out.Nodup) :
    declaredRoles e out raws = .ok types ↔ types = out ++ raws.map trimSpace ∧ types.Nodup ∧
      ∀ raw ∈ raws, validAnchorType (trimSpace raw) = true := by
  induction raws generalizing out with
  | nil =>
      simp only [declaredRoles, Except.ok.injEq, List.map_nil, List.append_nil, List.not_mem_nil]
      constructor
      · rintro rfl
        exact ⟨rfl, hout, nofun⟩
      · exact fun h => h.1.symm
  | cons raw raws ih =>
      have huntyped : ∀ t, t = "" ∨ t = untypedAlias → validAnchorType t = false := by
        rintro t (rfl | rfl) <;> decide
      simp only [declaredRoles]
      split_ifs with halias hknown htwice
      · simp [huntyped _ (by simpa using halias)]
      · simp [show validAnchorType (trimSpace raw) = false by simpa using hknown]
      · simp only [false_iff, not_and]
        rintro rfl hnodup
        exact absurd rfl ((List.nodup_append.1 hnodup).2.2 _ htwice _ (by simp))
      · have hknown : validAnchorType (trimSpace raw) = true := by simpa using hknown
        have hnodup : (out ++ [trimSpace raw]).Nodup :=
          List.nodup_append.2 ⟨hout, by simp, fun t ht u hu => List.mem_singleton.1 hu ▸ fun h => htwice (h ▸ ht)⟩
        rw [ih hnodup]
        simp [hknown]

theorem declaredTypes_eq_ok {e : InternalAnchor} {types : List String} :
    declaredTypes e = .ok types ↔ DeclaresTypes e types := by
  unfold declaredTypes DeclaresTypes
  cases htypes : e.hasTypes with
  | false =>
      simp only [Bool.not_false, if_true, true_and, Bool.false_eq_true, false_and, or_false]
      by_cases halias : trimSpace e.type = untypedAlias
      · simpa [halias] using eq_comm
      · simp only [halias, if_false, false_or]
        by_cases hknown : trimSpace e.type = "" ∨ validAnchorType (trimSpace e.type) = true
        · rw [if_neg (by simpa [or_iff_not_imp_left] using hknown)]
          simpa [hknown] using eq_comm
        · rw [if_pos (by simpa [not_or] using hknown)]
          simp [hknown]
  | true =>
      simp only [Bool.not_true, Bool.false_eq_true, if_false, false_and, true_and, false_or, reduceCtorEq]
      cases htype : e.hasType with
      | true => simp
      | false =>
          by_cases hempty : e.types = []
          · simp [hempty]
          · simp only [Bool.false_eq_true, if_false, hempty, not_false_eq_true, ne_eq, true_and]
            rw [declaredRoles_eq_ok List.nodup_nil, List.nil_append]
            constructor
            · rintro ⟨rfl, hnodup, hvalid⟩
              exact ⟨rfl, hnodup, by simpa using hvalid⟩
            · rintro ⟨rfl, hnodup, hvalid⟩
              exact ⟨rfl, hnodup, by simpa using hvalid⟩

/-- The bytes of the one certificate source of an entry. -/
def SourceBytes (rt : Runtime) (readFile : String → Except String Bytes) (baseDir : String) (e : InternalAnchor)
    (raw : Bytes) : Prop :=
  (e.certificate ≠ "" ∧ e.certificateFile = "" ∧ raw = e.certificate.toUTF8.toList) ∨
    (e.certificate = "" ∧ e.certificateFile ≠ "" ∧ readFile (if isAbs e.certificateFile then e.certificateFile
      else rt.pathJoin baseDir e.certificateFile) = .ok raw)

theorem resolveInternalCertBytes_eq_ok {e : InternalAnchor} {raw : Bytes} :
    resolveInternalCertBytes rt readFile e baseDir = .ok raw ↔ SourceBytes rt readFile baseDir e raw := by
  unfold resolveInternalCertBytes SourceBytes
  by_cases hinline : e.certificate = "" <;> by_cases hfile : e.certificateFile = "" <;>
    simp only [hinline, hfile, ne_eq, not_true_eq_false, not_false_eq_true, decide_true, decide_false, Bool.and_true,
      Bool.and_false, Bool.false_eq_true, if_true, if_false, false_and, true_and, or_false, false_or, reduceCtorEq,
      Except.ok.injEq]
  · cases readFile (if isAbs e.certificateFile then e.certificateFile else rt.pathJoin baseDir e.certificateFile) <;> simp
  · exact eq_comm

/-- An entry that is valid on its own: types, a territory, and one source with one unexpired certificate. -/
structure Acceptable (rt : Runtime) (readFile : String → Except String Bytes) (baseDir : String) (now : Time)
    (e : InternalAnchor) (types : List String) (cert : Certificate) : Prop where
  types : DeclaresTypes e types
  territory : validInternalTerritory (rt.toUpper (trimSpace e.territory)) = true
  certificate : ∃ raw, SourceBytes rt readFile baseDir e raw ∧ parseCerts rt raw = .ok [cert]
  unexpired : now ≤ cert.notAfter

/-- What `buildInternalAnchors` returns, and when. -/
theorem buildInternalAnchors_eq_ok {e : InternalAnchor} {as : List Anchor} :
    buildInternalAnchors rt readFile e baseDir now = .ok as ↔
      ∃ types cert, Acceptable rt readFile baseDir now e types cert ∧ as = types.map (declaredAnchor rt e cert) := by
  constructor
  · intro h
    simp only [buildInternalAnchors] at h
    obtain ⟨types, htypes, h⟩ := Result.bind_eq_ok.1 h
    split at h
    · cases h
    rename_i hterritory
    obtain ⟨raw, hraw, h⟩ := Result.bind_eq_ok.1 h
    cases hcerts : parseCerts rt raw with
    | error err =>
        rw [hcerts] at h
        cases h
    | ok certs =>
        rw [hcerts] at h
        simp only [Result.ok_bind] at h
        split at h
        · rename_i cert
          split at h
          · cases h
          · rename_i hexpired
            cases h
            exact ⟨types, cert, ⟨declaredTypes_eq_ok.1 htypes, by simpa using hterritory,
              ⟨raw, resolveInternalCertBytes_eq_ok.1 hraw, hcerts⟩, not_lt.1 hexpired⟩, rfl⟩
        · cases h
  · rintro ⟨types, cert, ⟨htypes, hterritory, ⟨raw, hraw, hcerts⟩, hexpired⟩, rfl⟩
    simp only [buildInternalAnchors, declaredTypes_eq_ok.2 htypes, resolveInternalCertBytes_eq_ok.2 hraw, hcerts,
      Result.ok_bind, hterritory, Bool.not_true, Bool.false_eq_true, if_false, hexpired.not_gt]
    rfl

/-- An entry says itself which types and which certificate it is about. -/
theorem Acceptable.unique {e : InternalAnchor} {types types' : List String} {cert cert' : Certificate}
    (h : Acceptable rt readFile baseDir now e types cert) (h' : Acceptable rt readFile baseDir now' e types' cert') :
    types = types' ∧ cert = cert' := by
  obtain ⟨raw, hraw, hcert⟩ := h.certificate
  obtain ⟨raw', hraw', hcert'⟩ := h'.certificate
  have htypes := (declaredTypes_eq_ok.2 h.types).symm.trans (declaredTypes_eq_ok.2 h'.types)
  have hbytes := (resolveInternalCertBytes_eq_ok.2 hraw).symm.trans (resolveInternalCertBytes_eq_ok.2 hraw')
  obtain rfl := Except.ok.inj hbytes
  have hcerts := Except.ok.inj (hcert.symm.trans hcert')
  exact ⟨Except.ok.inj htypes, List.singleton_inj.1 hcerts⟩

/-- The types of an entry are distinct and of the taxonomy, and there is one. -/
theorem DeclaresTypes.distinct {e : InternalAnchor} {types : List String} (h : DeclaresTypes e types) :
    types.Nodup ∧ types ≠ [] ∧ ∀ t ∈ types, t = "" ∨ validAnchorType t := by
  obtain ⟨-, rfl, hknown⟩ | ⟨-, -, hne, rfl, hnodup, hvalid⟩ := h
  · refine ⟨by simp, by simp, fun t ht => ?_⟩
    rw [List.mem_singleton.1 ht]
    split_ifs with halias
    · exact .inl rfl
    · exact hknown.imp id fun h => h.resolve_left halias
  · exact ⟨hnodup, by simpa using hne, fun t ht => .inr (hvalid t ht)⟩

/-! ## Anchors -/

/-- An anchor as the declared source makes it. -/
structure Declared (rt : Runtime) (a : Anchor) : Prop where
  source : a.source = sourceInternal
  fingerprint : a.fingerprintSHA256 = rt.sha256hex a.certDER
  key : (a.keyAlgorithm, a.curve) = spkiAlgorithm rt a.certDER
  type : a.type = "" ∨ validAnchorType a.type

/-- What tells declared anchors apart. -/
def declaredPair (a : Anchor) : String × String := (a.fingerprintSHA256, a.type)

/-- One entry makes anchors of one certificate, with different types. -/
theorem buildInternalAnchors_spec {e : InternalAnchor} {as : List Anchor}
    (h : buildInternalAnchors rt readFile e baseDir now = .ok as) :
    (∀ a ∈ as, Declared rt a ∧ a.fingerprintSHA256 = (as.head?.map (·.fingerprintSHA256)).getD "") ∧
      (as.map declaredPair).Nodup := by
  obtain ⟨types, cert, hentry, rfl⟩ := buildInternalAnchors_eq_ok.1 h
  obtain ⟨hnodup, -, hvalid⟩ := hentry.types.distinct
  constructor
  · intro a ha
    obtain ⟨t, ht, rfl⟩ := List.mem_map.1 ha
    refine ⟨⟨rfl, rfl, rfl, hvalid t ht⟩, ?_⟩
    cases types with
    | nil => cases ht
    | cons u us => rfl
  · rw [List.map_map]
    exact hnodup.map fun t u heq => (Prod.mk.inj heq).2

/-- The entry with the flags that its node sets. -/
def flagged (e : InternalAnchor) (node : YamlNode) : InternalAnchor :=
  { e with
    hasType := (node.resolveAlias.mappingValue "type").isSome
    hasTypes := (node.resolveAlias.mappingValue "types").isSome }

theorem loadEntries_cons_eq_ok {seenBy : List (String × String)} {x : InternalAnchor × YamlNode}
    {rest : List (InternalAnchor × YamlNode)} {as : List Anchor} :
    loadEntries rt readFile baseDir now seenBy (x :: rest) = .ok as ↔
      x.2.resolveAlias.unknownKey entryKeys = none ∧
      ∃ built later, buildInternalAnchors rt readFile (flagged x.1 x.2) baseDir now = .ok built ∧
        seenBy.lookup ((built.head?.map (·.fingerprintSHA256)).getD "") = none ∧
        loadEntries rt readFile baseDir now
          (((built.head?.map (·.fingerprintSHA256)).getD "", x.1.name) :: seenBy) rest = .ok later ∧
        as = built ++ later := by
  obtain ⟨e, node⟩ := x
  constructor
  · intro h
    simp only [loadEntries] at h
    split at h
    · cases h
    rename_i hkeys
    obtain ⟨built, hbuilt, h⟩ := Result.bind_eq_ok.1 h
    split at h
    · cases h
    · rename_i hseen
      obtain ⟨later, hlater, h⟩ := Result.bind_eq_ok.1 h
      cases h
      exact ⟨Option.eq_none_iff_forall_ne_some.2 hkeys, built, later, hbuilt,
        Option.eq_none_iff_forall_ne_some.2 hseen, hlater, rfl⟩
  · rintro ⟨hkeys, built, later, hbuilt, hseen, hlater, rfl⟩
    have hbuilt' : buildInternalAnchors rt readFile
        { e with
          hasType := (node.resolveAlias.mappingValue "type").isSome
          hasTypes := (node.resolveAlias.mappingValue "types").isSome } baseDir now = .ok built := hbuilt
    simp only [loadEntries, hkeys, hbuilt', hseen, Result.ok_bind, hlater]
    rfl

/-- The entries of a file make anchors of different certificates. -/
theorem loadEntries_spec {seenBy : List (String × String)} {entries : List (InternalAnchor × YamlNode)}
    {as : List Anchor} (h : loadEntries rt readFile baseDir now seenBy entries = .ok as) :
    (∀ a ∈ as, Declared rt a ∧ seenBy.lookup a.fingerprintSHA256 = none) ∧
      (as.map declaredPair).Nodup := by
  induction entries generalizing seenBy as with
  | nil =>
      cases h
      simp
  | cons entry rest ih =>
      obtain ⟨-, built, later, hbuilt, hseen, hlater, rfl⟩ := loadEntries_cons_eq_ok.1 h
      obtain ⟨hdeclared, hnodup⟩ := buildInternalAnchors_spec hbuilt
      obtain ⟨hrest, hrestNodup⟩ := ih hlater
      -- a later anchor is looked up against the certificate of this entry too
      have hne : ∀ a ∈ later, a.fingerprintSHA256 ≠ (built.head?.map (·.fingerprintSHA256)).getD "" ∧
          seenBy.lookup a.fingerprintSHA256 = none := by
        intro a ha
        have hlookup := (hrest a ha).2
        rw [List.lookup_cons] at hlookup
        split at hlookup
        · cases hlookup
        · rename_i hbeq
          exact ⟨by simpa using hbeq, hlookup⟩
      constructor
      · intro a ha
        rcases List.mem_append.1 ha with ha | ha
        · exact ⟨(hdeclared a ha).1, (hdeclared a ha).2 ▸ hseen⟩
        · exact ⟨(hrest a ha).1, (hne a ha).2⟩
      · rw [List.map_append, List.nodup_append]
        refine ⟨hnodup, hrestNodup, ?_⟩
        rintro pair hpair pair' hpair' rfl
        obtain ⟨a, ha, rfl⟩ := List.mem_map.1 hpair
        obtain ⟨b, hb, heq⟩ := List.mem_map.1 hpair'
        exact (hne b hb).1 ((Prod.mk.inj heq).1.trans (hdeclared a ha).2)

theorem buildInternalAnchors_time {e : InternalAnchor} {as as' : List Anchor}
    (h : buildInternalAnchors rt readFile e baseDir now = .ok as)
    (h' : buildInternalAnchors rt readFile e baseDir now' = .ok as') : as = as' := by
  obtain ⟨types, cert, hentry, rfl⟩ := buildInternalAnchors_eq_ok.1 h
  obtain ⟨types', cert', hentry', rfl⟩ := buildInternalAnchors_eq_ok.1 h'
  obtain ⟨rfl, rfl⟩ := hentry.unique hentry'
  rfl

theorem loadEntries_time {seenBy : List (String × String)} {entries : List (InternalAnchor × YamlNode)}
    {as as' : List Anchor} (h : loadEntries rt readFile baseDir now seenBy entries = .ok as)
    (h' : loadEntries rt readFile baseDir now' seenBy entries = .ok as') : as = as' := by
  induction entries generalizing seenBy as as' with
  | nil =>
      cases h
      cases h'
      rfl
  | cons entry rest ih =>
      obtain ⟨-, built, later, hbuilt, -, hlater, rfl⟩ := loadEntries_cons_eq_ok.1 h
      obtain ⟨-, built', later', hbuilt', -, hlater', rfl⟩ := loadEntries_cons_eq_ok.1 h'
      obtain rfl := buildInternalAnchors_time hbuilt hbuilt'
      rw [ih hlater hlater']

theorem parseCerts_parsed {raw : Bytes} {certs : List Certificate} (h : parseCerts rt raw = .ok certs) :
    ∀ cert ∈ certs, ∃ info, rt.parseX509 cert.raw = .ok info := by
  have hone : ∀ {der : Bytes} {cert : Certificate}, rt.parseCertificate der = .ok cert →
      ∃ info, rt.parseX509 cert.raw = .ok info := by
    intro der cert h
    unfold Runtime.parseCertificate at h
    split at h
    · rename_i info hinfo
      cases h
      exact ⟨info, hinfo⟩
    · cases h
  unfold parseCerts at h
  obtain ⟨found, hfound, h⟩ := Result.bind_eq_ok.1 h
  split_ifs at h
  · cases h
    intro cert hcert
    obtain ⟨b, -, hb⟩ := Result.exists_of_mapM_ok hfound hcert
    exact hone hb
  · split at h
    · rename_i cert hcert
      cases h
      simpa using hone hcert
    · cases h

/-! ## The end of an anchor -/

/-- Where the declared end is earlier than that of the certificate, it stands. -/
def lifeEnd (e : InternalAnchor) (cert : Certificate) : Time :=
  if e.validUntil = zeroTime then cert.notAfter else min e.validUntil cert.notAfter

/-- The anchor is what an entry makes of a certificate. -/
structure MadeFrom (rt : Runtime) (e : InternalAnchor) (cert : Certificate) (a : Anchor) : Prop where
  parsed : ∃ raw, parseCerts rt raw = .ok [cert]
  anchor : a = declaredAnchor rt e cert a.type

theorem MadeFrom.notAfter {e : InternalAnchor} {cert : Certificate} {a : Anchor} (h : MadeFrom rt e cert a) :
    a.notAfter = lifeEnd e cert := by
  rw [h.anchor, lifeEnd]
  by_cases hzero : e.validUntil = zeroTime
  · simp [declaredAnchor, hzero]
  · rcases lt_or_ge e.validUntil cert.notAfter with hlt | hge
    · simp [declaredAnchor, hzero, hlt, min_eq_left hlt.le]
    · simp [declaredAnchor, hzero, hge.not_gt, min_eq_right hge]

theorem lifeEnd_unexpired {e : InternalAnchor} {cert : Certificate} (hcert : now ≤ cert.notAfter) :
    now ≤ lifeEnd e cert ↔ e.validUntil = zeroTime ∨ now ≤ e.validUntil := by
  unfold lifeEnd
  split_ifs with hzero
  · simp [hzero, hcert]
  · simp [hzero, hcert]

/-- Each anchor is what some entry makes of an unexpired certificate, and each entry makes one. -/
theorem loadEntries_made {seenBy : List (String × String)} {entries : List (InternalAnchor × YamlNode)}
    {as : List Anchor} (h : loadEntries rt readFile baseDir now seenBy entries = .ok as) :
    (∀ a ∈ as, ∃ x ∈ entries, ∃ cert, now ≤ cert.notAfter ∧ MadeFrom rt (flagged x.1 x.2) cert a) ∧
      ∀ x ∈ entries, ∃ a ∈ as, ∃ cert, now ≤ cert.notAfter ∧ MadeFrom rt (flagged x.1 x.2) cert a := by
  induction entries generalizing seenBy as with
  | nil =>
      cases h
      simp
  | cons entry rest ih =>
      obtain ⟨-, built, later, hbuilt, -, hlater, rfl⟩ := loadEntries_cons_eq_ok.1 h
      obtain ⟨types, cert, hentry, rfl⟩ := buildInternalAnchors_eq_ok.1 hbuilt
      obtain ⟨raw, -, hcert⟩ := hentry.certificate
      have hexpired := hentry.unexpired
      obtain ⟨hmade, hentries⟩ := ih hlater
      have hnew : ∀ t, MadeFrom rt (flagged entry.1 entry.2) cert
          (declaredAnchor rt (flagged entry.1 entry.2) cert t) := fun t => ⟨⟨raw, hcert⟩, rfl⟩
      constructor
      · intro a ha
        rcases List.mem_append.1 ha with ha | ha
        · obtain ⟨t, -, rfl⟩ := List.mem_map.1 ha
          exact ⟨entry, List.mem_cons_self, cert, hexpired, hnew t⟩
        · obtain ⟨x, hx, hmade⟩ := hmade a ha
          exact ⟨x, List.mem_cons_of_mem entry hx, hmade⟩
      · intro x hx
        rcases List.mem_cons.1 hx with rfl | hx
        · obtain ⟨t, ht⟩ := List.exists_mem_of_ne_nil types hentry.types.distinct.2.1
          exact ⟨_, List.mem_append_left _ (List.mem_map_of_mem ht), cert, hexpired, hnew t⟩
        · obtain ⟨a, ha, hmade⟩ := hentries x hx
          exact ⟨a, List.mem_append_right _ ha, hmade⟩

/-! ## The file -/

/-- The root of a document. -/
def rootOf : YamlNode → Option YamlNode
  | .document content => content.head?
  | n => some n

/-- The entries of a file that loads. -/
def declaredEntries (rt : Runtime) (readFile : String → Except String Bytes) (path : String) :
    List (InternalAnchor × YamlNode) :=
  if path = "" then []
  else
    match (readFile path).bind rt.unmarshalYAML with
    | .error _ => []
    | .ok doc =>
      match rootOf doc with
      | none | some .empty => []
      | some root =>
        match rt.decodeInternalFile root with
        | .error _ => []
        | .ok entries => entries.zip (YamlNode.sequenceItems (root.mappingValue "anchors"))

/-- A file that loads is empty, or is decoded and checked, with one node for each entry. -/
theorem loadInternalBytes_ok {raw : Bytes} {as : List Anchor}
    (h : loadInternalBytes rt readFile raw baseDir now = .ok as) :
    ∃ doc, rt.unmarshalYAML raw = .ok doc ∧
      (((rootOf doc = none ∨ rootOf doc = some .empty) ∧ as = []) ∨
        ∃ root es built, rootOf doc = some root ∧ root ≠ .empty ∧ rt.decodeInternalFile root = .ok es ∧
          root.unknownKey fileKeys = none ∧
          (YamlNode.sequenceItems (root.mappingValue "anchors")).length = es.length ∧
          loadEntries rt readFile baseDir now []
            (es.zip (YamlNode.sequenceItems (root.mappingValue "anchors"))) = .ok built ∧
          as = built.insertionSort internalLe) := by
  unfold loadInternalBytes at h
  cases hdoc : rt.unmarshalYAML raw with
  | error e =>
      rw [hdoc] at h
      cases h
  | ok doc =>
      rw [hdoc] at h
      change (match rootOf doc with
        | none | some .empty => _
        | some root => _) = _ at h
      refine ⟨doc, rfl, ?_⟩
      cases hroot : rootOf doc with
      | none =>
          rw [hroot] at h
          cases h
          exact .inl ⟨.inl rfl, rfl⟩
      | some root =>
          rw [hroot] at h
          split at h
          · rename_i hnone
            cases hnone
          · rename_i hempty
            cases h
            exact .inl ⟨.inr hempty, rfl⟩
          · rename_i root' hne hsome
            cases hsome
            split at h
            · cases h
            · rename_i es hdecode
              simp only at h
              split at h
              · cases h
              · rename_i hkeys
                split_ifs at h with hlength
                · cases h
                · obtain ⟨built, hbuilt, h⟩ := Result.bind_eq_ok.1 h
                  cases h
                  exact .inr ⟨root, es, built, rfl, hne, hdecode, Option.eq_none_iff_forall_ne_some.2 hkeys,
                    not_not.1 hlength, hbuilt, rfl⟩

theorem loadInternal_ok {path : String} {as : List Anchor} (h : loadInternal rt readFile path now = .ok as) :
    ∃ built, loadEntries rt readFile (rt.pathDir path) now [] (declaredEntries rt readFile path) = .ok built ∧
      as = built.insertionSort internalLe := by
  unfold loadInternal at h
  unfold declaredEntries
  split_ifs at h ⊢
  · cases h
    exact ⟨[], rfl, rfl⟩
  · split at h
    · cases h
    · rename_i raw hraw
      obtain ⟨doc, hdoc, ⟨hroot, rfl⟩ | ⟨root, es, built, hroot, hne, hdecode, -, -, hbuilt, rfl⟩⟩ :=
        loadInternalBytes_ok h
      · refine ⟨[], ?_, rfl⟩
        rcases hroot with hroot | hroot <;> simp [hraw, Except.bind, hdoc, hroot, loadEntries]
      · refine ⟨built, ?_, rfl⟩
        cases root <;> first | exact absurd rfl hne | simpa [hraw, Except.bind, hdoc, hroot, hdecode] using hbuilt

/-- The order of the declared anchors: no two are equal in it. -/
def internalLt (a b : Anchor) : Prop :=
  a.fingerprintSHA256 < b.fingerprintSHA256 ∨
    (a.fingerprintSHA256 = b.fingerprintSHA256 ∧ a.type < b.type)

instance : DecidableRel internalLt := fun a b => by
  unfold internalLt
  infer_instance

theorem internalLe_eq : internalLe = lexLe Anchor.fingerprintSHA256 (keyLe Anchor.type) := rfl

instance : Std.Total internalLe := internalLe_eq ▸ inferInstance

instance : IsTrans Anchor internalLe := internalLe_eq ▸ inferInstance

theorem internalLt_of_le {a b : Anchor} (hle : internalLe a b) (hne : declaredPair a ≠ declaredPair b) :
    internalLt a b := by
  unfold internalLe at hle
  split_ifs at hle with hfp
  · exact .inl hle
  · rw [not_not] at hfp
    refine .inr ⟨hfp, lt_of_le_of_ne hle fun htype => hne ?_⟩
    rw [declaredPair, declaredPair, hfp, htype]

theorem internalLt_asymm {a b : Anchor} (hab : internalLt a b) : ¬ internalLt b a := by
  rintro (hba | ⟨hfp', hba⟩) <;> rcases hab with hab | ⟨hfp, hab⟩
  · exact hab.asymm hba
  · exact lt_irrefl _ (hfp ▸ hba)
  · exact lt_irrefl _ (hfp' ▸ hab)
  · exact hab.asymm hba

theorem declaredPair_nodup {as : List Anchor} (h : as.Pairwise internalLt) : (as.map declaredPair).Nodup := by
  refine List.pairwise_map.2 (h.imp fun {a b} hlt heq => ?_)
  obtain ⟨hfp, htype⟩ := Prod.mk.inj heq
  rcases hlt with hlt | ⟨-, hlt⟩
  · exact hlt.ne hfp
  · exact hlt.ne htype

/-- Declared sets in order are equal if they have the same anchors. -/
theorem eq_of_internalLt {as bs : List Anchor} (has : as.Pairwise internalLt) (hbs : bs.Pairwise internalLt)
    (hmem : ∀ a, a ∈ as ↔ a ∈ bs) : as = bs :=
  eq_of_sorted_of_mem (k := declaredPair) (fun _ _ hab hba => absurd hba (internalLt_asymm hab)) has hbs
    (declaredPair_nodup has) (declaredPair_nodup hbs) hmem

theorem loadEntries_sorted {entries : List (InternalAnchor × YamlNode)} {built : List Anchor}
    (h : loadEntries rt readFile baseDir now [] entries = .ok built) :
    (built.insertionSort internalLe).Pairwise internalLt := by
  have hnodup : (built.insertionSort internalLe).Pairwise fun a b => declaredPair a ≠ declaredPair b :=
    List.pairwise_map.1 (((List.perm_insertionSort _ _).map _).nodup_iff.2 (loadEntries_spec h).2)
  exact ((List.pairwise_insertionSort internalLe built).and hnodup).imp fun hab => internalLt_of_le hab.1 hab.2

theorem loadInternal_spec {path : String} {as : List Anchor}
    (h : loadInternal rt readFile path now = .ok as) : (∀ a ∈ as, Declared rt a) ∧ as.Pairwise internalLt := by
  obtain ⟨built, hbuilt, rfl⟩ := loadInternal_ok h
  refine ⟨fun a ha => ?_, loadEntries_sorted hbuilt⟩
  exact ((loadEntries_spec hbuilt).1 a (by simpa using ha)).1

theorem loadInternal_made {path : String} {as : List Anchor} (h : loadInternal rt readFile path now = .ok as) :
    ∀ a ∈ as, ∃ e cert, MadeFrom rt e cert a := by
  obtain ⟨built, hbuilt, rfl⟩ := loadInternal_ok h
  intro a ha
  obtain ⟨x, -, cert, -, hmade⟩ := (loadEntries_made hbuilt).1 a (by simpa using ha)
  exact ⟨_, cert, hmade⟩

/-- A load checks the certificates against the clock, not the declared ends. -/
theorem loadInternal_unexpired_iff {path : String} {as : List Anchor}
    (h : loadInternal rt readFile path now = .ok as) : (∀ a ∈ as, now ≤ a.notAfter) ↔
      ∀ x ∈ declaredEntries rt readFile path, x.1.validUntil = zeroTime ∨ now ≤ x.1.validUntil := by
  obtain ⟨built, hbuilt, rfl⟩ := loadInternal_ok h
  obtain ⟨hanchors, hentries⟩ := loadEntries_made hbuilt
  simp only [List.mem_insertionSort]
  constructor
  · intro hall x hx
    obtain ⟨a, ha, cert, hcert, hmade⟩ := hentries x hx
    have hend := hall a ha
    rw [hmade.notAfter] at hend
    exact (lifeEnd_unexpired hcert).1 hend
  · intro hall a ha
    obtain ⟨x, hx, cert, hcert, hmade⟩ := hanchors a ha
    rw [hmade.notAfter]
    exact (lifeEnd_unexpired hcert).2 (hall x hx)

theorem loadInternal_time {path : String} {as as' : List Anchor}
    (h : loadInternal rt readFile path now = .ok as) (h' : loadInternal rt readFile path now' = .ok as') :
    as = as' := by
  obtain ⟨built, hbuilt, rfl⟩ := loadInternal_ok h
  obtain ⟨built', hbuilt', rfl⟩ := loadInternal_ok h'
  rw [loadEntries_time hbuilt hbuilt']

end TrustAnchor.Trust
