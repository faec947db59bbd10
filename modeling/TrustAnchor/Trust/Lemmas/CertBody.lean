import TrustAnchor.Lib.Der
import TrustAnchor.Lib.Result
import TrustAnchor.Trust.CertBody

/-!
# What the structural reader reads

The reader is a chain of reads, each from where the one before it ended. On encoded elements a read gives the element
and what follows it.
-/

namespace TrustAnchor.Trust

open Lib Lib.Der

variable {rt : Runtime} {der rest : Bytes} {body : CertificateBody} {el el' : Element} {what : String}

/-! ## The chain -/

/-- The elements on the way, what follows each of them, and the algorithm identifier. -/
structure BodyParts where
  cert : RawValue
  tbs : RawValue
  version : Int
  serial : RawValue
  sig : RawValue
  issuer : RawValue
  validity : RawValue
  subject : RawValue
  spki : RawValue
  alg : RawValue
  oid : List Nat
  params : Bytes
  afterTbs : Bytes
  afterSerial : Bytes
  afterNumber : Bytes
  afterSig : Bytes
  afterIssuer : Bytes
  afterValidity : Bytes
  afterTimes : Bytes
  afterSubject : Bytes
  afterSpki : Bytes
  afterAlg : Bytes

/-- The reads, in their order. -/
structure Reading (rt : Runtime) (der : Bytes) (body : CertificateBody) (p : BodyParts) : Prop where
  cert : rt.asn1Raw der = .ok (p.cert, [])
  sequence : isSequence p.cert = true
  tbs : nextSequence rt p.cert.bytes "tbsCertificate" = .ok (p.tbs, p.afterTbs)
  serial : versionAndSerial rt p.tbs.bytes = .ok (p.version, p.serial, p.afterSerial)
  version : body.version = p.version
  number : rt.asn1BigInt p.serial.fullBytes = .ok (body.serialNumber, p.afterNumber)
  sig : nextSequence rt p.afterSerial "signature algorithm" = .ok (p.sig, p.afterSig)
  issuer : nextSequence rt p.afterSig "issuer" = .ok (p.issuer, p.afterIssuer)
  issuerName : rdnString rt p.issuer.fullBytes = .ok body.issuer
  validity : nextSequence rt p.afterIssuer "validity" = .ok (p.validity, p.afterValidity)
  times : rt.asn1Validity p.validity.fullBytes = .ok ((body.notBefore, body.notAfter), p.afterTimes)
  subject : nextSequence rt p.afterValidity "subject" = .ok (p.subject, p.afterSubject)
  subjectName : rdnString rt p.subject.fullBytes = .ok body.subject
  spki : nextSequence rt p.afterSubject "subjectPublicKeyInfo" = .ok (p.spki, p.afterSpki)
  alg : nextSequence rt p.spki.bytes "key algorithm" = .ok (p.alg, p.afterAlg)
  oid : rt.asn1OID p.alg.bytes = .ok (p.oid, p.params)
  key : (body.keyAlgorithm, body.curve) = keyAlgorithmName rt p.oid p.params

theorem orNotACertificate_eq_ok {α : Type} {r : Except String α} {a : α} :
    orNotACertificate what r = .ok a ↔ r = .ok a := by
  cases r <;> simp [orNotACertificate]

theorem decodeCertificateBody_eq_ok : decodeCertificateBody rt der = .ok body ↔ ∃ p, Reading rt der body p := by
  constructor
  · intro h
    unfold decodeCertificateBody at h
    obtain ⟨⟨cert, rest⟩, hcert, h⟩ := Result.bind_eq_ok.1 h
    simp only at h
    split at h
    · cases h
    rename_i hsequence
    simp only [ne_eq, decide_not, Bool.or_eq_true, Bool.not_eq_true', decide_eq_false_iff_not, not_or, not_not,
      Bool.not_eq_false] at hsequence
    obtain ⟨rfl, hsequence⟩ := hsequence
    obtain ⟨⟨tbs, afterTbs⟩, htbs, h⟩ := Result.bind_eq_ok.1 h
    obtain ⟨⟨version, serial, afterSerial⟩, hserial, h⟩ := Result.bind_eq_ok.1 h
    obtain ⟨⟨number, afterNumber⟩, hnumber, h⟩ := Result.bind_eq_ok.1 h
    obtain ⟨⟨sig, afterSig⟩, hsig, h⟩ := Result.bind_eq_ok.1 h
    obtain ⟨⟨issuerEl, afterIssuer⟩, hissuer, h⟩ := Result.bind_eq_ok.1 h
    obtain ⟨issuer, hissuerName, h⟩ := Result.bind_eq_ok.1 h
    obtain ⟨⟨validityEl, afterValidity⟩, hvalidity, h⟩ := Result.bind_eq_ok.1 h
    obtain ⟨⟨⟨notBefore, notAfter⟩, afterTimes⟩, htimes, h⟩ := Result.bind_eq_ok.1 h
    obtain ⟨⟨subjectEl, afterSubject⟩, hsubject, h⟩ := Result.bind_eq_ok.1 h
    obtain ⟨subject, hsubjectName, h⟩ := Result.bind_eq_ok.1 h
    obtain ⟨⟨spki, afterSpki⟩, hspki, h⟩ := Result.bind_eq_ok.1 h
    obtain ⟨⟨alg, afterAlg⟩, halg, h⟩ := Result.bind_eq_ok.1 h
    obtain ⟨⟨oid, params⟩, hoid, h⟩ := Result.bind_eq_ok.1 h
    cases h
    rw [orNotACertificate_eq_ok] at hcert hnumber hissuerName htimes hsubjectName hoid
    exact ⟨⟨cert, tbs, version, serial, sig, issuerEl, validityEl, subjectEl, spki, alg, oid, params, afterTbs,
      afterSerial, afterNumber, afterSig, afterIssuer, afterValidity, afterTimes, afterSubject, afterSpki, afterAlg⟩,
      hcert, hsequence, htbs, hserial, rfl, hnumber, hsig, hissuer, hissuerName, hvalidity, htimes, hsubject,
      hsubjectName, hspki, halg, hoid, rfl⟩
  · rintro ⟨p, h⟩
    simp only [decodeCertificateBody, h.cert, h.sequence, h.tbs, h.serial, h.number, h.sig, h.issuer, h.issuerName,
      h.validity, h.times, h.subject, h.subjectName, h.spki, h.alg, h.oid, ← h.key, ← h.version, orNotACertificate,
      Result.ok_bind]
    rfl

/-! ## Elements -/

/-- Class and number of the tag. -/
def tagOf (el : Element) : Nat × Nat := (el.cls, el.tag)

def sequenceTag : Nat × Nat := (0, 16)

def integerTag : Nat × Nat := (0, 2)

def oidTag : Nat × Nat := (0, 6)

def versionTag : Nat × Nat := (2, 0)

/-- The element as `asn1.RawValue`. -/
def rawOf (el : Element) : RawValue := ⟨el.cls, el.tag, el.compound, el.content, el.encode⟩

/-- A number of one octet. -/
def smallInteger (n : UInt8) : Element := ⟨0, 2, false, [n], by decide, Nat.one_lt_pow (by decide) (by decide)⟩

/-- What `encoding/asn1` does with encoded elements: it never takes one for another, reads those that it has room
for, reads small numbers, and reads numbers and object identifiers off elements with their tags only. -/
structure ReadsDer (rt : Runtime) : Prop where
  sound : ∀ {el : Element} {rest r}, rt.asn1Raw (el.encode ++ rest) = .ok r → r = (rawOf el, rest)
  complete : ∀ (el : Element) rest, el.tag < 2 ^ 31 → el.content.length < 2 ^ 31 →
    ∃ r, rt.asn1Raw (el.encode ++ rest) = .ok r
  small : ∀ n < 128, rt.asn1Int (smallInteger n).encode = .ok (n.toNat, [])
  int : ∀ {el : Element} {rest r}, rt.asn1Int (el.encode ++ rest) = .ok r → tagOf el = integerTag
  bigInt : ∀ {el : Element} {rest r}, rt.asn1BigInt (el.encode ++ rest) = .ok r → tagOf el = integerTag
  oid : ∀ {el : Element} {rest r}, rt.asn1OID (el.encode ++ rest) = .ok r → tagOf el = oidTag

/-- A constructed SEQUENCE. -/
def IsSequence (el : Element) : Prop := tagOf el = sequenceTag ∧ el.compound = true

theorem isSequence_rawOf : isSequence (rawOf el) = true ↔ IsSequence el := by
  simp only [isSequence, Bool.and_eq_true, decide_eq_true_eq, IsSequence, tagOf, sequenceTag, Prod.mk.injEq]
  rfl

theorem IsSequence.tag_lt (h : IsSequence el) : el.tag < 2 ^ 31 := by
  rw [(Prod.mk.inj h.1).2]
  decide

namespace ReadsDer

theorem raw (h : ReadsDer rt) (htag : el.tag < 2 ^ 31) (hlength : el.content.length < 2 ^ 31) :
    rt.asn1Raw (el.encode ++ rest) = .ok (rawOf el, rest) := by
  obtain ⟨r, hr⟩ := h.complete el rest htag hlength
  rw [hr, h.sound hr]

theorem nextSequence (h : ReadsDer rt) (hel : IsSequence el) (hlength : el.content.length < 2 ^ 31) :
    nextSequence rt (el.encode ++ rest) what = .ok (rawOf el, rest) := by
  simp [Trust.nextSequence, h.raw hel.tag_lt hlength, isSequence_rawOf.2 hel]

/-- Nothing but an element's own bytes is read as that element alone. -/
theorem of_raw (h : ReadsDer rt) {v : RawValue} (hr : rt.asn1Raw (el.encode ++ rest) = .ok (v, [])) :
    v = rawOf el ∧ rest = [] := by
  obtain ⟨rfl, hrest⟩ := Prod.mk.inj (h.sound hr)
  exact ⟨rfl, hrest.symm⟩

theorem of_nextSequence (h : ReadsDer rt) {bs : Bytes} {r : RawValue × Bytes}
    (hr : Trust.nextSequence rt bs what = .ok r) (hbs : bs = el.encode ++ rest) :
    IsSequence el ∧ r.1 = rawOf el ∧ r.2 = rest := by
  unfold Trust.nextSequence at hr
  rw [hbs] at hr
  split at hr
  · cases hr
  · rename_i el' rest' hraw
    split_ifs at hr with hsequence
    cases hr
    obtain ⟨rfl, rfl⟩ := Prod.mk.inj (h.sound hraw)
    exact ⟨isSequence_rawOf.1 hsequence, rfl, rfl⟩

/-- A number in the place of the version is the serial number of a first version. -/
theorem versionAndSerial_serial (h : ReadsDer rt) (hserial : tagOf el = integerTag)
    (hlength : el.content.length < 2 ^ 31) : versionAndSerial rt (el.encode ++ rest) = .ok (1, rawOf el, rest) := by
  obtain ⟨hcls, htag⟩ := Prod.mk.inj hserial
  have hnone : ((rawOf el).cls = 2 && (rawOf el).tag = 0) = false := by simp [rawOf, hcls]
  unfold versionAndSerial
  rw [h.raw (by omega) hlength]
  simp only [hnone]
  rfl

theorem versionAndSerial_version (h : ReadsDer rt) {n : UInt8} (hn : n ≤ 2) (hversion : tagOf el = versionTag)
    (hcontent : el.content = (smallInteger n).encode) (hlength : el.content.length < 2 ^ 31)
    (hserial : tagOf el' = integerTag) (hlength' : el'.content.length < 2 ^ 31) :
    versionAndSerial rt (el.encode ++ (el'.encode ++ rest)) = .ok (n.toNat + 1, rawOf el', rest) := by
  obtain ⟨hcls, htag⟩ := Prod.mk.inj hversion
  obtain ⟨-, htag'⟩ := Prod.mk.inj hserial
  have hsome : ((rawOf el).cls = 2 && (rawOf el).tag = 0) = true := by simp [rawOf, hcls, htag]
  have hsmall : n < 128 := UInt8.lt_of_le_of_lt hn (by decide)
  have hint : rt.asn1Int (rawOf el).bytes = .ok (n.toNat, []) := by
    rw [← h.small n hsmall, ← hcontent]
    rfl
  have hrange : ((n.toNat : Int) < 0 || 2 < (n.toNat : Int)) = false := by
    have hle : n.toNat ≤ 2 := hn
    simp only [Bool.or_eq_false_iff, decide_eq_false_iff_not]
    omega
  unfold versionAndSerial
  rw [h.raw (by omega) hlength]
  simp only [hsome, if_true, hint, hrange, h.raw (by omega : el'.tag < 2 ^ 31) hlength']
  rfl

/-- The first of two elements is a version before the serial number, or is the serial number. -/
theorem of_versionAndSerial (h : ReadsDer rt) {r : Int × RawValue × Bytes}
    (hr : versionAndSerial rt (el.encode ++ (el'.encode ++ rest)) = .ok r) :
    (tagOf el = versionTag ∧ (∃ v, rt.asn1Int el.content = .ok v) ∧ r.2 = (rawOf el', rest)) ∨
      tagOf el ≠ versionTag ∧ r.2 = (rawOf el, el'.encode ++ rest) := by
  unfold versionAndSerial at hr
  split at hr
  · cases hr
  rename_i first after hfirst
  obtain ⟨rfl, rfl⟩ := Prod.mk.inj (h.sound hfirst)
  split_ifs at hr with hversion
  · left
    simp only [Bool.and_eq_true, decide_eq_true_eq] at hversion
    have htag : tagOf el = versionTag := Prod.ext hversion.1 hversion.2
    split at hr
    · cases hr
    rename_i v after hv
    split_ifs at hr
    split at hr
    · cases hr
    rename_i second after' hsecond
    cases hr
    exact ⟨htag, ⟨_, hv⟩, h.sound hsecond⟩
  · right
    cases hr
    simp only [Bool.and_eq_true, decide_eq_true_eq] at hversion
    exact ⟨fun htag => hversion (Prod.mk.inj htag), rfl⟩

end ReadsDer

end TrustAnchor.Trust
