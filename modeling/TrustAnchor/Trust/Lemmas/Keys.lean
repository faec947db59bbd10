import TrustAnchor.Lib.Key
import TrustAnchor.Lib.Keyed
import TrustAnchor.Trust.Lemmas.CertBody

/-!
# The names of keys

Which key the structural reader finds in a certificate, and under which names it is known.
-/

namespace TrustAnchor.Trust

open Lib

variable {rt : Runtime}

/-! ## Dotted identifiers -/

theorem toList_oidString (oid : List Nat) :
    (oidString oid).toList = ['.'].intercalate (oid.map fun n => Nat.toDigits 10 n) := by
  simp [oidString, String.toList_intercalate, Function.comp_def]

/-- A dotted identifier is written in digits and dots. -/
theorem mem_oidString {oid : List Nat} {c : Char} (h : c ∈ (oidString oid).toList) : c = '.' ∨ c.isDigit = true := by
  rw [toList_oidString] at h
  refine (mem_intercalate h).imp id ?_
  rintro ⟨x, hx, hc⟩
  obtain ⟨n, -, rfl⟩ := List.mem_map.1 hx
  exact Nat.isDigit_of_mem_toDigits (by decide) (by decide) hc

/-- It can be read back. -/
theorem oidString_inj {oid oid' : List Nat} (hne : oid ≠ []) (hne' : oid' ≠ []) :
    oidString oid = oidString oid' ↔ oid = oid' := by
  refine ⟨fun h => ?_, fun h => h ▸ rfl⟩
  have hsplit : ∀ {o : List Nat}, o ≠ [] →
      List.splitOn '.' (['.'].intercalate (o.map fun n => Nat.toDigits 10 n)) = o.map fun n => Nat.toDigits 10 n := by
    refine fun ho => List.splitOn_intercalate '.' (fun x hx hdot => ?_) (by simpa using ho)
    obtain ⟨n, -, rfl⟩ := List.mem_map.1 hx
    exact absurd (Nat.isDigit_of_mem_toDigits (by decide) (by decide) hdot) (by decide)
  have hlists := congrArg String.toList h
  rw [toList_oidString, toList_oidString] at hlists
  have hdigits := hsplit hne
  rw [hlists, hsplit hne'] at hdigits
  refine List.map_injective_iff.2 (fun m n hmn => ?_) hdigits.symm
  simpa [Nat.ofDigitChars_ten_toDigits] using congrArg (fun ds => Nat.ofDigitChars 10 ds 0) hmn

theorem oidString_ne_empty {oid : List Nat} (hne : oid ≠ []) : oidString oid ≠ "" := by
  intro h
  have hlist := congrArg String.toList h
  rw [toList_oidString] at hlist
  cases oid with
  | nil => exact hne rfl
  | cons n oid =>
      cases oid with
      | nil => simp at hlist
      | cons m oid => simp [List.intercalate_cons_cons] at hlist

/-! ## The key of a certificate -/

def oidECPublicKey : List Nat := [1, 2, 840, 10045, 2, 1]

/-- The named curves P-224, P-256, P-384 and P-521. -/
def nistCurveOIDs : List (List Nat) :=
  [[1, 3, 132, 0, 33], [1, 2, 840, 10045, 3, 1, 7], [1, 3, 132, 0, 34], [1, 3, 132, 0, 35]]

/-- The algorithm identifier of a certificate's public key and the parameters after it: the seventh
element of the body, or the sixth where the version is left out. -/
def keyIdentifier (rt : Runtime) (der : Bytes) : Except Err (List Nat × Bytes) := do
  let (cert, _) ← orNotACertificate "" (rt.asn1Raw der)
  let (tbs, _) ← nextSequence rt cert.bytes "tbsCertificate"
  let (_, _, rest) ← versionAndSerial rt tbs.bytes
  let (_, rest) ← nextSequence rt rest "signature algorithm"
  let (_, rest) ← nextSequence rt rest "issuer"
  let (_, rest) ← nextSequence rt rest "validity"
  let (_, rest) ← nextSequence rt rest "subject"
  let (spki, _) ← nextSequence rt rest "subjectPublicKeyInfo"
  let (alg, _) ← nextSequence rt spki.bytes "key algorithm"
  orNotACertificate "key algorithm: " (rt.asn1OID alg.bytes)

/-- The reader names the key by its identifier. -/
theorem decodeCertificateBody_key {der : Bytes} {body : CertificateBody}
    (h : decodeCertificateBody rt der = .ok body) :
    ∃ oid params, keyIdentifier rt der = .ok (oid, params) ∧
      (body.keyAlgorithm, body.curve) = keyAlgorithmName rt oid params := by
  obtain ⟨p, hp⟩ := decodeCertificateBody_eq_ok.1 h
  refine ⟨p.oid, p.params, ?_, hp.key⟩
  simp only [keyIdentifier, orNotACertificate, hp.cert, hp.tbs, hp.serial, hp.sig, hp.issuer, hp.validity, hp.subject,
    hp.spki, hp.alg, hp.oid, Result.ok_bind]

/-- A key on a named curve other than the NIST ones. -/
def OnOtherCurve (rt : Runtime) (der : Bytes) : Prop :=
  ∃ params curve rest, keyIdentifier rt der = .ok (oidECPublicKey, params) ∧ params ≠ [] ∧
    rt.asn1OID params = .ok (curve, rest) ∧ curve ≠ [] ∧ curve ∉ nistCurveOIDs

/-- The name of a named curve tells whether it is a NIST one. -/
theorem ecCurveName_other {params rest : Bytes} {curve : List Nat} (hparams : params ≠ [])
    (hoid : rt.asn1OID params = .ok (curve, rest)) (hne : curve ≠ []) (hnist : curve ∉ nistCurveOIDs) :
    ecCurveName rt params ≠ "" ∧ ecCurveName rt params ∉ Anchor.nistCurves := by
  simp only [ecCurveName, hparams, if_false, hoid]
  cases hlookup : namedCurves.lookup (oidString curve) with
  | none =>
      refine ⟨oidString_ne_empty hne, fun hmem => ?_⟩
      have hletter : ∀ name ∈ Anchor.nistCurves, 'P' ∈ name.toList := by decide
      exact absurd (mem_oidString (hletter _ hmem)) (by decide)
  | some name =>
      -- the table names the four identifiers, and gives the other names to others
      have hall : ∀ e ∈ namedCurves, e.2 ≠ "" ∧ (e.2 ∈ Anchor.nistCurves → e.1 ∈ nistCurveOIDs.map oidString) := by
        decide +kernel
      obtain ⟨hname, hcurve⟩ := hall _ ((lookup_eq_some (by decide +kernel)).1 hlookup)
      refine ⟨hname, fun hmem => ?_⟩
      obtain ⟨oid, hoid, heq⟩ := List.mem_map.1 (hcurve hmem)
      have hoidNe : ∀ o ∈ nistCurveOIDs, o ≠ [] := by decide
      exact hnist ((oidString_inj (hoidNe oid hoid) hne).1 heq ▸ hoid)

/-- Such a key is not common. -/
theorem keyCommon_of_onOtherCurve {a : Anchor} {body : CertificateBody} (h : OnOtherCurve rt a.certDER)
    (hbody : decodeCertificateBody rt a.certDER = .ok body)
    (hkey : (a.keyAlgorithm, a.curve) = (body.keyAlgorithm, body.curve)) : a.keyCommon = false := by
  obtain ⟨params, curve, rest, hid, hparams, hoid, hne, hnist⟩ := h
  obtain ⟨oid, params', hid', hname⟩ := decodeCertificateBody_key hbody
  rw [hid] at hid'
  cases hid'
  have hec : keyAlgorithmName rt oidECPublicKey params = (Anchor.keyAlgorithmECDSA, ecCurveName rt params) := rfl
  rw [hname, hec] at hkey
  obtain ⟨halg, hcurve⟩ := Prod.mk.inj hkey
  obtain ⟨hempty, hother⟩ := ecCurveName_other hparams hoid hne hnist
  simp [Anchor.keyCommon, halg, hcurve, hempty, hother]

end TrustAnchor.Trust
