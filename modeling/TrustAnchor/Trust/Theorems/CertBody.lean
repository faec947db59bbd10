import TrustAnchor.Ingest.Symbolic
import TrustAnchor.Trust.Lemmas.Keys

/-!
# The structural reader and the encoding of certificates

The reader gives back what a certificate was encoded from, and refuses one in which an element that it reads has
another tag.
-/

namespace TrustAnchor.Trust

open Lib Lib.Der

variable {rt : Runtime}

/-! ## Certificates -/

/-- The elements of a TBSCertificate up to the key. -/
structure TbsFields where
  version : Option Element
  serial : Element
  signatureAlgorithm : Element
  issuer : Element
  validity : Element
  subject : Element
  spki : Element

namespace TbsFields

def afterSubject (f : TbsFields) (more : Bytes) : Bytes := f.spki.encode ++ more

def afterValidity (f : TbsFields) (more : Bytes) : Bytes := f.subject.encode ++ f.afterSubject more

def afterIssuer (f : TbsFields) (more : Bytes) : Bytes := f.validity.encode ++ f.afterValidity more

def afterSignature (f : TbsFields) (more : Bytes) : Bytes := f.issuer.encode ++ f.afterIssuer more

def afterSerial (f : TbsFields) (more : Bytes) : Bytes := f.signatureAlgorithm.encode ++ f.afterSignature more

def encode (f : TbsFields) (more : Bytes) : Bytes :=
  f.version.elim [] Element.encode ++ (f.serial.encode ++ f.afterSerial more)

end TbsFields

/-- A certificate by its elements. The further fields of the TBSCertificate, the key after its algorithm, and the
outer algorithm with the signature are any bytes. -/
structure CertificateParts where
  outer : Element
  tbs : Element
  fields : TbsFields
  algorithm : Element
  oid : Element
  params : Option Element
  key : Bytes
  more : Bytes
  signature : Bytes

inductive CertificateVersion where
  | v1
  | v2
  | v3

/-- The version as it is written: nothing for the first one, and the number before it for the others. -/
def CertificateVersion.written : CertificateVersion → Option UInt8
  | .v1 => none
  | .v2 => some 1
  | .v3 => some 2

def CertificateVersion.number : CertificateVersion → Int
  | .v1 => 1
  | .v2 => 2
  | .v3 => 3

/-- What a certificate says. -/
structure CertificateValues where
  version : CertificateVersion
  serialNumber : Int
  issuer : String
  notBefore : Time
  notAfter : Time
  subject : String
  oid : List Nat

/-- The certificate is the encoding of the values. -/
structure Assembled (rt : Runtime) (c : CertificateParts) (v : CertificateValues) : Prop where
  outer : IsSequence c.outer
  outer_content : c.outer.content = c.tbs.encode ++ c.signature
  tbs : IsSequence c.tbs
  tbs_content : c.tbs.content = c.fields.encode c.more
  version_none : v.version.written = none → c.fields.version = none
  version_some : ∀ n, v.version.written = some n →
    ∃ el, c.fields.version = some el ∧ tagOf el = versionTag ∧ el.content = (smallInteger n).encode
  serial : rt.asn1BigInt c.fields.serial.encode = .ok (v.serialNumber, [])
  signatureAlgorithm : IsSequence c.fields.signatureAlgorithm
  issuer : IsSequence c.fields.issuer
  issuer_name : rt.asn1Name c.fields.issuer.encode = .ok (v.issuer, [])
  validity : IsSequence c.fields.validity
  validity_times : rt.asn1Validity c.fields.validity.encode = .ok ((v.notBefore, v.notAfter), [])
  subject : IsSequence c.fields.subject
  subject_name : rt.asn1Name c.fields.subject.encode = .ok (v.subject, [])
  spki : IsSequence c.fields.spki
  spki_content : c.fields.spki.content = c.algorithm.encode ++ c.key
  algorithm : IsSequence c.algorithm
  algorithm_content : c.algorithm.content = c.oid.encode ++ c.params.elim [] Element.encode
  oid : ∀ rest, rt.asn1OID (c.oid.encode ++ rest) = .ok (v.oid, rest)

/-! ## The names of the key -/

def algorithmNames : List (List Nat × String) :=
  [([1, 2, 840, 113549, 1, 1, 1], "rsa"), ([1, 2, 840, 113549, 1, 1, 10], "rsassa-pss"),
    ([1, 3, 101, 112], "ed25519"), ([1, 3, 101, 113], "ed448"), (oidECPublicKey, "ecdsa")]

/-- The curve by the parameters of an EC key: a named one, one that is written out, or none. -/
def curveOf (rt : Runtime) : Option Element → String
  | none => ""
  | some el =>
    match rt.asn1OID el.encode with
    | .ok (oid, _) => (namedCurves.lookup (oidString oid)).getD (oidString oid)
    | .error _ => if tagOf el = sequenceTag ∧ el.compound = true then "explicit" else ""

/-- The names of an identifier and its parameters. -/
def keyNames (rt : Runtime) (oid : List Nat) (params : Option Element) : String × String :=
  ((algorithmNames.lookup oid).getD (oidString oid), if oid = oidECPublicKey then curveOf rt params else "")

/-- The certificate's body as it should be read. -/
def CertificateValues.body (rt : Runtime) (v : CertificateValues) (params : Option Element) : CertificateBody where
  version := v.version.number
  serialNumber := v.serialNumber
  issuer := v.issuer
  subject := v.subject
  notBefore := v.notBefore
  notAfter := v.notAfter
  keyAlgorithm := (keyNames rt v.oid params).1
  curve := (keyNames rt v.oid params).2

theorem ecCurveName_encode (hder : ReadsDer rt) {params : Option Element}
    (hlength : ∀ el ∈ params, el.content.length < 2 ^ 31) :
    ecCurveName rt (params.elim [] Element.encode) = curveOf rt params := by
  cases params with
  | none => rfl
  | some el =>
      simp only [Option.elim_some, ecCurveName, el.encode_ne_nil, if_false, curveOf]
      cases hoid : rt.asn1OID el.encode with
      | ok r => rfl
      | error e =>
          have happend : el.encode ++ [] = el.encode := List.append_nil _
          cases hraw : rt.asn1Raw el.encode with
          | ok r =>
              rw [← happend] at hraw
              obtain rfl := hder.sound hraw
              exact if_congr isSequence_rawOf rfl rfl
          | error e =>
              -- the decoder has room for the element, so it is no SEQUENCE
              have hno : ¬ IsSequence el := by
                intro hel
                obtain ⟨r, hr⟩ := hder.complete el [] hel.tag_lt (hlength el rfl)
                rw [happend, hraw] at hr
                cases hr
              exact (if_neg hno).symm

theorem keyAlgorithmName_encode (hder : ReadsDer rt) {oid : List Nat} {params : Option Element}
    (hlength : ∀ el ∈ params, el.content.length < 2 ^ 31) :
    keyAlgorithmName rt oid (params.elim [] Element.encode) = keyNames rt oid params := by
  unfold keyAlgorithmName
  rw [ecCurveName_encode hder hlength]
  split_ifs with hrsa hpss h25519 h448 hec
  · subst hrsa
    rfl
  · subst hpss
    rfl
  · subst h25519
    rfl
  · subst h448
    rfl
  · subst hec
    rfl
  · have hnone : algorithmNames.lookup oid = none := by
      simp [List.lookup_eq_none_iff, algorithmNames, oidECPublicKey, hrsa, hpss, h25519, h448, hec]
    simp only [keyNames, hnone, oidECPublicKey, hec, if_false, Option.getD_none]

/-! ## Reading back -/

section Assembled

variable {c : CertificateParts} {v : CertificateValues}

/-- An encoder that wrote these elements wrote short ones. -/
theorem TbsFields.length_le (f : TbsFields) (more : Bytes) {el : Element}
    (hel : el ∈ f.version ∨ el ∈ [f.serial, f.signatureAlgorithm, f.issuer, f.validity, f.subject, f.spki]) :
    el.content.length ≤ (f.encode more).length := by
  refine el.length_content_le.trans ?_
  unfold encode
  rcases hel with hversion | hlater
  · rw [Option.mem_def.1 hversion]
    simp
  · simp only [List.mem_cons, List.not_mem_nil, or_false] at hlater
    simp only [afterSerial, afterSignature, afterIssuer, afterValidity, afterSubject, List.length_append]
    rcases hlater with rfl | rfl | rfl | rfl | rfl | rfl <;> omega

theorem Assembled.serial_tag (h : Assembled rt c v) (hder : ReadsDer rt) : tagOf c.fields.serial = integerTag := by
  have hnumber := h.serial
  rw [← List.append_nil c.fields.serial.encode] at hnumber
  exact hder.bigInt hnumber

theorem Assembled.versionAndSerial (h : Assembled rt c v)
    (hder : ReadsDer rt) (hlength : ∀ el, el ∈ c.fields.version ∨ el = c.fields.serial → el.content.length < 2 ^ 31)
    {rest : Bytes} :
    versionAndSerial rt (c.fields.version.elim [] Element.encode ++ (c.fields.serial.encode ++ rest)) =
      .ok (v.version.number, rawOf c.fields.serial, rest) := by
  have hserial := h.serial_tag hder
  have hwritten : ∀ {n : UInt8}, v.version.written = some n → n ≤ 2 → v.version.number = n.toNat + 1 →
      Trust.versionAndSerial rt (c.fields.version.elim [] Element.encode ++ (c.fields.serial.encode ++ rest)) =
        .ok (v.version.number, rawOf c.fields.serial, rest) := by
    intro n hn hle hnumber
    obtain ⟨el, hel, htag, hcontent⟩ := h.version_some n hn
    rw [hel, hnumber]
    exact hder.versionAndSerial_version hle htag hcontent (hlength el (.inl hel)) hserial (hlength _ (.inr rfl))
  cases hv : v.version with
  | v1 =>
      rw [h.version_none (by rw [hv]; rfl)]
      exact hder.versionAndSerial_serial hserial (hlength _ (.inr rfl))
  | v2 =>
      rw [← hv]
      exact hwritten (by rw [hv]; rfl) (by decide) (by rw [hv]; rfl)
  | v3 =>
      rw [← hv]
      exact hwritten (by rw [hv]; rfl) (by decide) (by rw [hv]; rfl)

theorem rdnString_encode {el : Element} {name : String} (h : rt.asn1Name el.encode = .ok (name, [])) :
    rdnString rt (rawOf el).fullBytes = .ok name := by
  have hbytes : (rawOf el).fullBytes = el.encode := rfl
  simp [rdnString, hbytes, h]

/-- The reader gives the values back. -/
theorem Assembled.decode (h : Assembled rt c v) (hder : ReadsDer rt)
    (hsize : c.outer.content.length < 2 ^ 31) :
    decodeCertificateBody rt c.outer.encode = .ok (v.body rt c.params) := by
  have htbs : c.tbs.content.length < 2 ^ 31 := by
    have hle := c.tbs.length_content_le
    rw [h.outer_content, List.length_append] at hsize
    omega
  have hfields : ∀ el, el ∈ c.fields.version ∨ el ∈ [c.fields.serial, c.fields.signatureAlgorithm, c.fields.issuer,
      c.fields.validity, c.fields.subject, c.fields.spki] → el.content.length < 2 ^ 31 := by
    intro el hel
    have hle := c.fields.length_le c.more hel
    rw [h.tbs_content] at htbs
    omega
  have hspki : c.fields.spki.content.length < 2 ^ 31 := hfields _ (by simp)
  have halgorithm : c.algorithm.content.length < 2 ^ 31 := by
    have hle := c.algorithm.length_content_le
    rw [h.spki_content, List.length_append] at hspki
    omega
  have hparams : ∀ el ∈ c.params, el.content.length < 2 ^ 31 := by
    intro el hel
    have hle := el.length_content_le
    rw [h.algorithm_content, Option.mem_def.1 hel, Option.elim_some, List.length_append] at halgorithm
    omega
  refine decodeCertificateBody_eq_ok.2 ⟨⟨rawOf c.outer, rawOf c.tbs, v.version.number, rawOf c.fields.serial,
    rawOf c.fields.signatureAlgorithm, rawOf c.fields.issuer, rawOf c.fields.validity, rawOf c.fields.subject,
    rawOf c.fields.spki, rawOf c.algorithm, v.oid, c.params.elim [] Element.encode, c.signature,
    c.fields.afterSerial c.more, [], c.fields.afterSignature c.more, c.fields.afterIssuer c.more,
    c.fields.afterValidity c.more, [], c.fields.afterSubject c.more, c.more, c.key⟩, ?_⟩
  exact {
    cert := by
      rw [← List.append_nil c.outer.encode]
      exact hder.raw h.outer.tag_lt hsize
    sequence := isSequence_rawOf.2 h.outer
    tbs := by
      change nextSequence rt c.outer.content _ = _
      rw [h.outer_content]
      exact hder.nextSequence h.tbs htbs
    serial := by
      change Trust.versionAndSerial rt c.tbs.content = _
      rw [h.tbs_content]
      exact h.versionAndSerial hder fun el hel => hfields el (hel.imp id fun heq => by simp [heq])
    version := rfl
    number := h.serial
    sig := hder.nextSequence h.signatureAlgorithm (hfields _ (by simp))
    issuer := hder.nextSequence h.issuer (hfields _ (by simp))
    issuerName := rdnString_encode h.issuer_name
    validity := hder.nextSequence h.validity (hfields _ (by simp))
    times := h.validity_times
    subject := hder.nextSequence h.subject (hfields _ (by simp))
    subjectName := rdnString_encode h.subject_name
    spki := hder.nextSequence h.spki hspki
    alg := by
      change nextSequence rt c.fields.spki.content _ = _
      rw [h.spki_content]
      exact hder.nextSequence h.algorithm halgorithm
    oid := by
      change rt.asn1OID c.algorithm.content = _
      rw [h.algorithm_content]
      exact h.oid _
    key := (keyAlgorithmName_encode hder hparams).symm }

end Assembled

/-! ## What is refused -/

/-- The tags of the fields from the signature algorithm on, and the algorithm of the key. -/
structure LaterFields (rt : Runtime) (f : TbsFields) : Prop where
  signatureAlgorithm : IsSequence f.signatureAlgorithm
  issuer : IsSequence f.issuer
  validity : IsSequence f.validity
  subject : IsSequence f.subject
  spki : IsSequence f.spki
  key : ∃ alg after r, nextSequence rt f.spki.content "key algorithm" = .ok (alg, after) ∧ rt.asn1OID alg.bytes = .ok r

/-- The tags of fields that are read. A version may be taken for the serial number, and a serial number for the
version; the field after it is then taken for it. -/
inductive ReadFields (rt : Runtime) (f : TbsFields) : Prop where
  | version {v r} : f.version = some v → tagOf v = versionTag → rt.asn1Int v.content = .ok r →
      tagOf f.serial = integerTag → LaterFields rt f → ReadFields rt f
  | noVersion : f.version = none → tagOf f.serial = integerTag → LaterFields rt f → ReadFields rt f
  | versionAsSerial {v} : f.version = some v → tagOf v = integerTag → IsSequence f.serial → ReadFields rt f
  | serialAsVersion : f.version = none → tagOf f.serial = versionTag → tagOf f.signatureAlgorithm = integerTag →
      ReadFields rt f

section Reading

variable {outer tbs : Element} {f : TbsFields} {der more signature : Bytes} {body : CertificateBody} {p : BodyParts}

theorem Reading.laterFields (h : Reading rt der body p) (hder : ReadsDer rt)
    (hafter : p.afterSerial = f.afterSerial more) : LaterFields rt f := by
  obtain ⟨hsig, -, hafterSig⟩ := hder.of_nextSequence h.sig hafter
  obtain ⟨hissuer, -, hafterIssuer⟩ := hder.of_nextSequence h.issuer hafterSig
  obtain ⟨hvalidity, -, hafterValidity⟩ := hder.of_nextSequence h.validity hafterIssuer
  obtain ⟨hsubject, -, hafterSubject⟩ := hder.of_nextSequence h.subject hafterValidity
  obtain ⟨hspki, hel, -⟩ := hder.of_nextSequence h.spki hafterSubject
  have halg := h.alg
  rw [show p.spki = rawOf f.spki from hel] at halg
  exact ⟨hsig, hissuer, hvalidity, hsubject, hspki, _, _, _, halg, h.oid⟩

theorem Reading.serial_tag (h : Reading rt der body p) (hder : ReadsDer rt) {el : Element}
    (hserial : p.serial = rawOf el) : tagOf el = integerTag := by
  have hnumber : rt.asn1BigInt (el.encode ++ []) = .ok (body.serialNumber, p.afterNumber) := by
    rw [List.append_nil, ← h.number, hserial]
    rfl
  exact hder.bigInt hnumber

theorem Reading.outer_tag (h : Reading rt outer.encode body p) (hder : ReadsDer rt) :
    IsSequence outer ∧ p.cert = rawOf outer := by
  have hcert := h.cert
  rw [← List.append_nil outer.encode] at hcert
  obtain ⟨hcert, -⟩ := hder.of_raw hcert
  have hsequence := h.sequence
  rw [hcert] at hsequence
  exact ⟨isSequence_rawOf.1 hsequence, hcert⟩

theorem Reading.tbs_tag (h : Reading rt outer.encode body p) (hder : ReadsDer rt)
    (houter : outer.content = tbs.encode ++ signature) : IsSequence tbs ∧ p.tbs = rawOf tbs := by
  have hbytes : p.cert.bytes = tbs.encode ++ signature := by
    rw [(h.outer_tag hder).2]
    exact houter
  obtain ⟨hsequence, hel, -⟩ := hder.of_nextSequence h.tbs hbytes
  exact ⟨hsequence, hel⟩

theorem Reading.readFields (h : Reading rt outer.encode body p) (hder : ReadsDer rt)
    (houter : outer.content = tbs.encode ++ signature) (htbs : tbs.content = f.encode more) : ReadFields rt f := by
  have hbytes : p.tbs.bytes = f.encode more := by
    rw [(h.tbs_tag hder houter).2]
    exact htbs
  have hserial := h.serial
  rw [hbytes, TbsFields.encode] at hserial
  cases hversion : f.version with
  | none =>
      rw [hversion] at hserial
      change versionAndSerial rt (f.serial.encode ++ (f.signatureAlgorithm.encode ++ f.afterSignature more)) = _ at hserial
      obtain ⟨htag, -, heq⟩ | ⟨-, heq⟩ := hder.of_versionAndSerial hserial
      · exact .serialAsVersion hversion htag (h.serial_tag hder (Prod.mk.inj heq).1)
      · exact .noVersion hversion (h.serial_tag hder (Prod.mk.inj heq).1) (h.laterFields hder (Prod.mk.inj heq).2)
  | some v =>
      rw [hversion] at hserial
      obtain ⟨htag, ⟨r, hr⟩, heq⟩ | ⟨-, heq⟩ := hder.of_versionAndSerial hserial
      · exact .version hversion htag hr (h.serial_tag hder (Prod.mk.inj heq).1) (h.laterFields hder (Prod.mk.inj heq).2)
      · obtain ⟨hsequence, -⟩ := hder.of_nextSequence h.sig (Prod.mk.inj heq).2
        exact .versionAsSerial hversion (h.serial_tag hder (Prod.mk.inj heq).1) hsequence

end Reading

/-- A number in its own place is the serial number. -/
theorem ReadFields.of_serial {f : TbsFields} (h : ReadFields rt f) (hserial : tagOf f.serial = integerTag) :
    LaterFields rt f ∧ ∀ v ∈ f.version, tagOf v = versionTag ∧ ∃ r, rt.asn1Int v.content = .ok r := by
  cases h with
  | version hversion htag hr _ hlater =>
      refine ⟨hlater, fun v hv => ?_⟩
      rw [hversion] at hv
      cases hv
      exact ⟨htag, _, hr⟩
  | noVersion hversion _ hlater => exact ⟨hlater, by simp [hversion]⟩
  | versionAsSerial _ _ hsequence =>
      rw [hsequence.1] at hserial
      cases hserial
  | serialAsVersion _ htag _ =>
      rw [htag] at hserial
      cases hserial

theorem ReadFields.serial_tag {f : TbsFields} (h : ReadFields rt f) (hversion : ∀ v ∈ f.version, tagOf v = versionTag)
    (hsig : IsSequence f.signatureAlgorithm) : tagOf f.serial = integerTag := by
  cases h with
  | version _ _ _ hserial _ => exact hserial
  | noVersion _ hserial _ => exact hserial
  | versionAsSerial hv htag _ =>
      rw [hversion _ hv] at htag
      cases htag
  | serialAsVersion _ _ htag =>
      rw [hsig.1] at htag
      cases htag

/-- The same tag and kind, around another content. -/
def SameHeader (el el' : Element) : Prop := tagOf el = tagOf el' ∧ el.compound = el'.compound

/-- One of the certificate's elements inside the TBSCertificate has given way to one with another tag. -/
inductive ReplacedField (c : CertificateParts) : TbsFields → Prop where
  | version {v x} : c.fields.version = some v → tagOf x ≠ tagOf v → ReplacedField c { c.fields with version := some x }
  | versionNumber {v v' x} : c.fields.version = some v → SameHeader v' v → v'.content = x.encode →
      tagOf x ≠ integerTag → ReplacedField c { c.fields with version := some v' }
  | serial {x} : tagOf x ≠ tagOf c.fields.serial → ReplacedField c { c.fields with serial := x }
  | signatureAlgorithm {x} : tagOf x ≠ tagOf c.fields.signatureAlgorithm →
      ReplacedField c { c.fields with signatureAlgorithm := x }
  | issuer {x} : tagOf x ≠ tagOf c.fields.issuer → ReplacedField c { c.fields with issuer := x }
  | validity {x} : tagOf x ≠ tagOf c.fields.validity → ReplacedField c { c.fields with validity := x }
  | subject {x} : tagOf x ≠ tagOf c.fields.subject → ReplacedField c { c.fields with subject := x }
  | spki {x} : tagOf x ≠ tagOf c.fields.spki → ReplacedField c { c.fields with spki := x }
  | algorithm {spki x} : SameHeader spki c.fields.spki → spki.content = x.encode ++ c.key →
      tagOf x ≠ tagOf c.algorithm → ReplacedField c { c.fields with spki := spki }
  | oid {spki algorithm x} : SameHeader spki c.fields.spki → spki.content = algorithm.encode ++ c.key →
      SameHeader algorithm c.algorithm → algorithm.content = x.encode ++ c.params.elim [] Element.encode →
      tagOf x ≠ tagOf c.oid → ReplacedField c { c.fields with spki := spki }

/-- The certificate with one of its elements replaced, in the elements around it. -/
inductive Replaced (c : CertificateParts) : Bytes → Prop where
  | outer {x : Element} : tagOf x ≠ tagOf c.outer → Replaced c x.encode
  | tbs {outer x} : SameHeader outer c.outer → outer.content = x.encode ++ c.signature → tagOf x ≠ tagOf c.tbs →
      Replaced c outer.encode
  | field {outer tbs f} : SameHeader outer c.outer → outer.content = tbs.encode ++ c.signature →
      SameHeader tbs c.tbs → tbs.content = f.encode c.more → ReplacedField c f → Replaced c outer.encode

section Refused

variable {c : CertificateParts} {v : CertificateValues}

theorem Assembled.version_tag (h : Assembled rt c v) : ∀ el ∈ c.fields.version, tagOf el = versionTag := by
  intro el hel
  cases hv : v.version.written with
  | none =>
      rw [h.version_none hv] at hel
      cases hel
  | some n =>
      obtain ⟨el', hel', htag, -⟩ := h.version_some n hv
      rw [hel'] at hel
      cases hel
      exact htag

theorem Assembled.not_readFields (h : Assembled rt c v) (hder : ReadsDer rt) {f : TbsFields}
    (hreplaced : ReplacedField c f) : ¬ ReadFields rt f := by
  intro hread
  have hserial := h.serial_tag hder
  have hother : ∀ {x el : Element}, tagOf x ≠ tagOf el → IsSequence el → ¬ IsSequence x :=
    fun hne hel hx => hne (hx.1.trans hel.1.symm)
  cases hreplaced with
  | version hv hne =>
      obtain ⟨htag, -⟩ := (hread.of_serial hserial).2 _ rfl
      exact hne (htag.trans (h.version_tag _ hv).symm)
  | versionNumber hv _ hcontent hne =>
      obtain ⟨-, r, hr⟩ := (hread.of_serial hserial).2 _ rfl
      rw [hcontent, ← List.append_nil (Element.encode _)] at hr
      exact hne (hder.int hr)
  | serial hne =>
      have htag := hread.serial_tag h.version_tag h.signatureAlgorithm
      exact hne (htag.trans hserial.symm)
  | signatureAlgorithm hne => exact hother hne h.signatureAlgorithm (hread.of_serial hserial).1.signatureAlgorithm
  | issuer hne => exact hother hne h.issuer (hread.of_serial hserial).1.issuer
  | validity hne => exact hother hne h.validity (hread.of_serial hserial).1.validity
  | subject hne => exact hother hne h.subject (hread.of_serial hserial).1.subject
  | spki hne => exact hother hne h.spki (hread.of_serial hserial).1.spki
  | algorithm _ hcontent hne =>
      obtain ⟨alg, after, r, halg, -⟩ := (hread.of_serial hserial).1.key
      exact hother hne h.algorithm (hder.of_nextSequence halg hcontent).1
  | oid _ hcontent _ hinner hne =>
      obtain ⟨alg, after, r, halg, hoid⟩ := (hread.of_serial hserial).1.key
      obtain ⟨-, rfl, -⟩ := hder.of_nextSequence halg hcontent
      rw [show (rawOf _).bytes = _ from hinner] at hoid
      exact hne ((hder.oid hoid).trans (hder.oid (h.oid [])).symm)

theorem Assembled.not_reading (h : Assembled rt c v) (hder : ReadsDer rt) {der : Bytes} (hreplaced : Replaced c der)
    {body : CertificateBody} {p : BodyParts} : ¬ Reading rt der body p := by
  intro hread
  cases hreplaced with
  | outer hne => exact hne ((hread.outer_tag hder).1.1.trans h.outer.1.symm)
  | tbs _ houter hne => exact hne ((hread.tbs_tag hder houter).1.1.trans h.tbs.1.symm)
  | field _ houter _ htbs hfield => exact h.not_readFields hder hfield (hread.readFields hder houter htbs)

theorem exists_error_of_not_reading {der : Bytes} (h : ∀ body p, ¬ Reading rt der body p) :
    ∃ e, decodeCertificateBody rt der = .error e := by
  cases hdecode : decodeCertificateBody rt der with
  | error e => exact ⟨e, rfl⟩
  | ok body =>
      obtain ⟨p, hread⟩ := decodeCertificateBody_eq_ok.1 hdecode
      exact absurd hread (h body p)

/-- The reader gives back what a certificate was assembled from. It refuses the certificate with anything after it,
or with another tag on an element that it reads. -/
theorem decodeCertificateBody_inverts (hder : ReadsDer rt) (h : Assembled rt c v)
    (hsize : c.outer.content.length < 2 ^ 31) :
    decodeCertificateBody rt c.outer.encode = .ok (v.body rt c.params) ∧
      (∀ x ≠ [], ∃ e, decodeCertificateBody rt (c.outer.encode ++ x) = .error e) ∧
      ∀ der, Replaced c der → ∃ e, decodeCertificateBody rt der = .error e := by
  refine ⟨h.decode hder hsize, ?_, ?_⟩
  · intro x hx
    refine exists_error_of_not_reading fun body p hread => ?_
    exact hx (hder.of_raw hread.cert).2
  · intro der hreplaced
    exact exists_error_of_not_reading fun body p => h.not_reading hder hreplaced

end Refused

/-! ## A certificate -/

/-- Reads the first element and takes a value from it. -/
def readAs {α : Type} (value : Element → Option α) (der : Bytes) : Except String (α × Bytes) :=
  match read der with
  | none => .error "truncated"
  | some (el, rest) =>
    match value el with
    | none => .error "wrong tag"
    | some a => .ok (a, rest)

theorem readAs_encode {α : Type} {value : Element → Option α} {el : Element} {rest : Bytes} {r : α × Bytes} :
    readAs value (el.encode ++ rest) = .ok r ↔ value el = some r.1 ∧ rest = r.2 := by
  simp only [readAs, read_encode]
  cases hvalue : value el with
  | none => simp
  | some a => simp [Prod.ext_iff]

/-- The arcs of an object identifier after the first two, by groups of seven bits. -/
def oidArcs : Nat → Bytes → List Nat
  | 0, _ => []
  | n + 1, bs =>
    match readGroups 0 bs with
    | none => []
    | some (arc, bs) => arc :: oidArcs n bs

/-- A number in two's complement. -/
def integerOf (el : Element) : Option Int :=
  if tagOf el ≠ integerTag then none
  else if el.content.head?.any (128 ≤ ·) then some (ofOctets el.content - 256 ^ el.content.length)
  else some (ofOctets el.content)

def oidOf (el : Element) : Option (List Nat) :=
  match el.content with
  | [] => none
  | b :: bs => if tagOf el = oidTag then some (b.toNat / 40 :: b.toNat % 40 :: oidArcs bs.length bs) else none

/-- The elements of a content. -/
def elementsOf : Nat → Bytes → Option (List Element)
  | _, [] => some []
  | 0, _ => none
  | n + 1, bs => do
    let (el, rest) ← read bs
    return el :: (← elementsOf n rest)

/-- The elements of an element with the universal tag. -/
def membersOf (tag : Nat) (el : Element) : Option (List Element) :=
  if tagOf el = (0, tag) ∧ el.compound = true then elementsOf el.content.length el.content else none

def twoDigits : Bytes → Option (Nat × Bytes)
  | a :: b :: rest =>
    if 48 ≤ a ∧ a ≤ 57 ∧ 48 ≤ b ∧ b ≤ 57 then some ((a.toNat - 48) * 10 + (b.toNat - 48), rest) else none
  | _ => none

/-- The days from the first one of 1970 to one of the Gregorian calendar, with years that begin in March. -/
def daysTo (year month day : Nat) : Int :=
  let y := if month ≤ 2 then year - 1 else year
  let m := if month ≤ 2 then month + 9 else month - 3
  365 * y + y / 4 - y / 100 + y / 400 + (153 * m + 2) / 5 + day - 719469

/-- A UTCTime `YYMMDDHHMMSSZ`. -/
def utcTimeOf (el : Element) : Option Time := do
  let (yy, rest) ← twoDigits el.content
  let (month, rest) ← twoDigits rest
  let (day, rest) ← twoDigits rest
  let (hour, rest) ← twoDigits rest
  let (minute, rest) ← twoDigits rest
  let (second, rest) ← twoDigits rest
  if tagOf el = (0, 23) ∧ rest = [90] then
    some ((((daysTo (if yy < 50 then 2000 + yy else 1900 + yy) month day * 24 + hour) * 60 + minute) * 60 + second) *
      10 ^ 9)
  else none

def validityOf (el : Element) : Option (Time × Time) :=
  match membersOf 16 el with
  | some [notBefore, notAfter] => do return (← utcTimeOf notBefore, ← utcTimeOf notAfter)
  | _ => none

/-- An attribute of a name with a printable or a UTF-8 string, as `pkix.Name.String` writes it. -/
def attributeOf (el : Element) : Option String :=
  match membersOf 16 el with
  | some [type, value] => do
    let oid ← oidOf type
    let name := ([([2, 5, 4, 3], "CN"), ([2, 5, 4, 6], "C"), ([2, 5, 4, 10], "O")].lookup oid).getD (oidString oid)
    if tagOf value = (0, 12) ∨ tagOf value = (0, 19) then
      some (name ++ "=" ++ String.ofList (value.content.map fun b => Char.ofNat b.toNat))
    else none
  | _ => none

/-- An RDNSequence, the last name first. -/
def nameOf (el : Element) : Option String := do
  let rdns ← (← membersOf 16 el).mapM fun rdn => do (← membersOf 17 rdn).mapM attributeOf
  return ",".intercalate (rdns.reverse.map ("+".intercalate ·))

/-- The decoder for integers, identifiers, times before 2050 and names of plain text. -/
def derRuntime : Runtime :=
  { (Ingest.Symbolic.World.mk [] []).runtime with
    asn1Raw := readAs (some ∘ rawOf)
    asn1Int := readAs integerOf
    asn1BigInt := readAs integerOf
    asn1OID := readAs oidOf
    asn1Validity := readAs validityOf
    asn1Name := readAs nameOf }

theorem integerOf_tag {el : Element} {n : Int} (h : integerOf el = some n) : tagOf el = integerTag := by
  unfold integerOf at h
  split_ifs at h with htag <;> exact not_not.1 htag

theorem oidOf_tag {el : Element} {oid : List Nat} (h : oidOf el = some oid) : tagOf el = oidTag := by
  unfold oidOf at h
  split at h
  · cases h
  · split_ifs at h with htag
    exact htag

theorem readsDer_derRuntime : ReadsDer derRuntime where
  sound {el rest r} h := by
    change readAs (some ∘ rawOf) _ = _ at h
    obtain ⟨hvalue, hrest⟩ := readAs_encode.1 h
    exact Prod.ext (Option.some.inj hvalue).symm hrest.symm
  complete el rest _ _ := by
    refine ⟨(rawOf el, rest), ?_⟩
    change readAs (some ∘ rawOf) _ = _
    exact readAs_encode.2 ⟨rfl, rfl⟩
  small n hn := by
    have hvalue : integerOf (smallInteger n) = some (n.toNat : Int) := by
      simpa [integerOf, smallInteger, tagOf, integerTag, ofOctets] using hn
    have hread : readAs integerOf ((smallInteger n).encode ++ []) = .ok ((n.toNat : Int), []) :=
      readAs_encode.2 ⟨hvalue, rfl⟩
    rwa [List.append_nil] at hread
  int h := integerOf_tag (readAs_encode.1 h).1
  bigInt h := integerOf_tag (readAs_encode.1 h).1
  oid h := oidOf_tag (readAs_encode.1 h).1

/-- An element with less than 256 octets. -/
def shortElement (cls : Fin 4) (tag : Nat) (compound : Bool) (content : Bytes) (h : content.length < 256) : Element :=
  ⟨cls, tag, compound, content, cls.isLt, h.trans_le (Nat.le_self_pow (by decide) 256)⟩

def ecAlgorithm : Element := shortElement 0 6 false [42, 134, 72, 206, 61, 2, 1] (by decide)

def primeCurve : Element := shortElement 0 6 false [42, 134, 72, 206, 61, 3, 1, 7] (by decide)

def ecIdentifier : Element := shortElement 0 16 true (ecAlgorithm.encode ++ primeCurve.encode) (by decide)

/-- The name `CN=CA`. -/
def caName : Element :=
  shortElement 0 16 true [49, 11, 48, 9, 6, 3, 85, 4, 3, 19, 2, 67, 65] (by decide)

/-- The start of a year of this century. -/
def startOf (year : Fin 50) : Element :=
  shortElement 0 23 false ([48 + UInt8.ofNat (year / 10), 48 + UInt8.ofNat (year % 10)] ++
    [48, 49, 48, 49, 48, 48, 48, 48, 48, 48, 90]) (by simp)

def ecFields : TbsFields where
  version := some (shortElement 2 0 true (smallInteger 2).encode (by decide))
  serial := smallInteger 5
  signatureAlgorithm := shortElement 0 16 true [6, 8, 42, 134, 72, 206, 61, 4, 3, 2] (by decide)
  issuer := caName
  validity := shortElement 0 16 true ((startOf 25).encode ++ (startOf 35).encode) (by decide +kernel)
  subject := caName
  spki := shortElement 0 16 true (ecIdentifier.encode ++ [3, 1, 0]) (by decide)

def ecTbs : Element := shortElement 0 16 true (ecFields.encode []) (by decide +kernel)

/-- A third version with an EC key on P-256. -/
def ecCertificate : CertificateParts where
  outer := shortElement 0 16 true (ecTbs.encode ++ [5, 0]) (by decide +kernel)
  tbs := ecTbs
  fields := ecFields
  algorithm := ecIdentifier
  oid := ecAlgorithm
  params := some primeCurve
  key := [3, 1, 0]
  more := []
  signature := [5, 0]

def ecValues : CertificateValues where
  version := .v3
  serialNumber := 5
  issuer := "CN=CA"
  notBefore := 1735689600 * 10 ^ 9
  notAfter := 2051222400 * 10 ^ 9
  subject := "CN=CA"
  oid := oidECPublicKey

theorem assembled_ecCertificate : Assembled derRuntime ecCertificate ecValues where
  outer := ⟨rfl, rfl⟩
  outer_content := rfl
  tbs := ⟨rfl, rfl⟩
  tbs_content := rfl
  version_none := nofun
  version_some n hn := by
    cases hn
    exact ⟨_, rfl, rfl, rfl⟩
  serial := by decide +kernel
  signatureAlgorithm := ⟨rfl, rfl⟩
  issuer := ⟨rfl, rfl⟩
  issuer_name := by decide +kernel
  validity := ⟨rfl, rfl⟩
  validity_times := by decide +kernel
  subject := ⟨rfl, rfl⟩
  subject_name := by decide +kernel
  spki := ⟨rfl, rfl⟩
  spki_content := rfl
  algorithm := ⟨rfl, rfl⟩
  algorithm_content := rfl
  oid rest := by
    have hoid : oidOf ecAlgorithm = some oidECPublicKey := by decide +kernel
    change readAs oidOf (ecAlgorithm.encode ++ rest) = _
    exact readAs_encode.2 ⟨hoid, rfl⟩

theorem decodeCertificateBody_inverts_ecCertificate :
    decodeCertificateBody derRuntime ecCertificate.outer.encode = .ok
      { version := 3, serialNumber := 5, issuer := "CN=CA", subject := "CN=CA", notBefore := 1735689600 * 10 ^ 9,
        notAfter := 2051222400 * 10 ^ 9, keyAlgorithm := "ecdsa", curve := "P-256" } ∧
    (∃ e, decodeCertificateBody derRuntime (ecCertificate.outer.encode ++ [0]) = .error e) ∧
    ∃ e, decodeCertificateBody derRuntime (smallInteger 0).encode = .error e := by
  obtain ⟨hdecode, happend, hreplaced⟩ :=
    decodeCertificateBody_inverts readsDer_derRuntime assembled_ecCertificate (by decide +kernel)
  have hbody : ecValues.body derRuntime ecCertificate.params =
      { version := 3, serialNumber := 5, issuer := "CN=CA", subject := "CN=CA", notBefore := 1735689600 * 10 ^ 9,
        notAfter := 2051222400 * 10 ^ 9, keyAlgorithm := "ecdsa", curve := "P-256" } := by decide +kernel
  exact ⟨hbody ▸ hdecode, happend [0] (by simp), hreplaced _ (.outer (by decide))⟩

end TrustAnchor.Trust
