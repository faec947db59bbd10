import TrustAnchor.Ingest.Lemmas.WellFormed
import TrustAnchor.Ingest.Symbolic

/-!
# When declared anchors expire

The clock is held against the certificates of a file while it is loaded. The ends that the file declares
are not, and neither is a set that is carried over.
-/

namespace TrustAnchor.Ingest

open Lib Tsl Trust

variable {rt : Runtime} {cfg : Config} {readFile : String → Except String Bytes} {now : Time}
  {prev : Option Snapshot} {next : Snapshot}

/-- A cycle or a reconcile builds the snapshot at a time, from the files as they are then. -/
inductive BuiltAt (rt : Runtime) (cfg : Config) (readFile : String → Except String Bytes) (now : Time) :
    Option Snapshot → Snapshot → Prop
  | refresh {cy : Cycle} {prev : Option Snapshot} {boot : Bootstrap} {f f' : Fetcher} {next : Snapshot} :
      cy.readFile = readFile → cy.now = now → refresh rt cfg cy prev boot f = (.ok next, f') →
      BuiltAt rt cfg readFile now prev next
  | refreshDeclared {prev next : Snapshot} {rep : DeclaredSourceState} :
      refreshDeclared rt cfg readFile prev now = .ok (some next, rep) →
      BuiltAt rt cfg readFile now (some prev) next

theorem BuiltAt.advances (h : BuiltAt rt cfg readFile now prev next) : Advances rt cfg prev next := by
  cases h with
  | refresh _ _ h => exact .cycle h
  | refreshDeclared h => exact .declared h

theorem BuiltAt.internal (h : BuiltAt rt cfg readFile now prev next) : next.internal =
    (declaredSet (cfg.internalTrustSource ≠ "") ((prev.map (·.internal)).getD [])
      (loadInternal rt readFile cfg.internalTrustSource now)).1 := by
  cases h with
  | refresh hfile hnow h =>
      subst hfile hnow
      obtain ⟨res, f₁, outs, -, -, -, -, rfl⟩ := refresh_ok h
      rw [stamp_internal, applyHoldMode_internal, cycleBase_internal]
  | refreshDeclared h =>
      obtain ⟨rfl, -⟩ := refreshDeclared_eq h
      rfl

/-- The file is accepted and no end that it declares has passed, or it is rejected and no anchor of the
previous set has expired. -/
def Timely (rt : Runtime) (cfg : Config) (readFile : String → Except String Bytes) (now : Time)
    (prev : Option Snapshot) : Prop :=
  if (loadInternal rt readFile cfg.internalTrustSource now).isOk then
    ∀ x ∈ declaredEntries rt readFile cfg.internalTrustSource,
      x.1.validUntil = zeroTime ∨ now ≤ x.1.validUntil
  else ∀ p ∈ prev, ∀ a ∈ p.internal, now ≤ a.notAfter

theorem BuiltAt.unexpired_iff (h : BuiltAt rt cfg readFile now prev next) :
    (∀ a ∈ next.internal, now ≤ a.notAfter) ↔ Timely rt cfg readFile now prev := by
  rw [h.internal, Timely]
  cases hload : loadInternal rt readFile cfg.internalTrustSource now with
  | ok set => exact loadInternal_unexpired_iff hload
  | error e =>
      cases prev with
      | none => simp [declaredSet, Except.isOk, Except.toBool]
      | some p => simp [declaredSet, Except.isOk, Except.toBool]

/-- Every declared anchor is what an entry makes of a certificate, whenever its file was loaded. -/
theorem made_kept (rt : Runtime) :
    Kept rt (fun _ => True) fun s => ∀ a ∈ s.internal, ∃ e cert, MadeFrom rt e cert a where
  unloaded h := h
  advances {cfg prev next} _ hprev h := by
    have hbuilt : ∀ {readFile now}, BuiltAt rt cfg readFile now prev next →
        ∀ a ∈ next.internal, ∃ e cert, MadeFrom rt e cert a := by
      intro readFile now h a ha
      rw [h.internal] at ha
      cases hload : loadInternal rt readFile cfg.internalTrustSource now with
      | ok set =>
          rw [hload] at ha
          exact loadInternal_made hload a ha
      | error e =>
          rw [hload] at ha
          cases prev with
          | none => cases ha
          | some p => exact hprev p rfl a ha
    cases h with
    | cycle h => exact hbuilt (.refresh rfl rfl h)
    | declared h => exact hbuilt (.refreshDeclared h)
    | @approve cur => exact hprev cur rfl

/-- In every run, whatever a cycle or a reconcile builds has unexpired declared anchors exactly if the
source is timely. -/
theorem builtAt_unexpired_iff {ops : List (Config × Op)} {maxSize : Int}
    (h : BuiltAt rt cfg readFile now ((Service.empty maxSize).run rt ops).active next) :
    (∀ a ∈ next.internal, ∃ e cert, MadeFrom rt e cert a ∧ a.notAfter = lifeEnd e cert ∧ now ≤ a.notAfter) ↔
      Timely rt cfg readFile now ((Service.empty maxSize).run rt ops).active := by
  have hrun : Traced rt (fun _ => True) (fun s => ∀ a ∈ s.internal, ∃ e cert, MadeFrom rt e cert a)
      ((Service.empty maxSize).run rt ops) := .of_run (made_kept rt) (fun _ _ => trivial) maxSize
  have hmade := (made_kept rt).advances trivial hrun.of_active h.advances
  rw [← h.unexpired_iff]
  constructor
  · intro hall a ha
    obtain ⟨-, -, -, -, hend⟩ := hall a ha
    exact hend
  · intro hall a ha
    obtain ⟨e, cert, hfrom⟩ := hmade a ha
    exact ⟨e, cert, hfrom, hfrom.notAfter, hall a ha⟩

/-! ## A declared end that passes -/

namespace Symbolic

/-- A file with one entry, for a certificate that is valid until 10. The entry ends at 6. -/
def declaring : Runtime :=
  { growing.runtime with
    unmarshalYAML := fun _ => .ok (.mapping 1 [.scalar 1 "anchors", .sequence 2 [.mapping 2 []]])
    decodeInternalFile := fun _ => .ok
      [{ name := "A", type := "", types := [], territory := "EU", status := "", certificate := "ca"
         certificateFile := "", validUntil := 6, useCases := [], hasType := false, hasTypes := false }]
    parseX509 := fun _ => .ok { subject := "", commonName := "", notBefore := 0, notAfter := 10 } }

def declaringConfig : Config := { config ["EE"] .auto 0 with internalTrustSource := "anchors.yaml" }

def declarations (_ : String) : Except String Bytes := .ok []

def declaringCycle (now : Time) : Cycle := { cycle now (growingPages "1") with readFile := declarations }

/-- An install and a cycle at 5. -/
def declaringRun : Service :=
  (Service.empty 100).run declaring
    [(declaringConfig, install ["B"]),
      (declaringConfig, .refresh { declared := { now := 5, readFile := declarations }
                                   cycle := declaringCycle 5 })]

/-- The cycle after it. -/
def declaringNext (now : Time) : Except Err Snapshot × Fetcher :=
  Ingest.refresh declaring declaringConfig (declaringCycle now) declaringRun.active ⟨1, "", [ofText "B"]⟩
    declaringRun.fetcher

theorem exists_builtAt {now : Time} {P : Snapshot → Bool} (h : (declaringNext now).1.toOption.any P) :
    ∃ next, BuiltAt declaring declaringConfig declarations now declaringRun.active next ∧ P next := by
  obtain ⟨next, hnext, hP⟩ := Result.exists_ok_of_any h
  have hok : declaringNext now = (.ok next, (declaringNext now).2) := Prod.ext hnext rfl
  have hbuilt : BuiltAt declaring declaringConfig (declaringCycle now).readFile (declaringCycle now).now
      declaringRun.active next := .refresh rfl rfl hok
  exact ⟨next, hbuilt, hP⟩

end Symbolic

open Symbolic in
/-- At 7 the declared end has passed, and at 11 the certificate has expired too. -/
theorem builtAt_expired_served :
    (∃ next, BuiltAt declaring declaringConfig declarations 7 declaringRun.active next ∧
      ∃ a ∈ next.internal, a.notAfter < 7) ∧
    ∃ next, BuiltAt declaring declaringConfig declarations 11 declaringRun.active next ∧
      ∃ a ∈ next.internal, a.notAfter < 11 := by
  have hserved : ∀ now ∈ [7, 11], ∃ next, BuiltAt declaring declaringConfig declarations now declaringRun.active next ∧
      ∃ a ∈ next.internal, a.notAfter < now := by
    intro now hnow
    have hbuilt : (declaringNext now).1.toOption.any fun s => s.internal.any fun a => a.notAfter < now := by
      rcases List.mem_pair.1 hnow with rfl | rfl <;> decide +kernel
    obtain ⟨next, hnext, hexpired⟩ := exists_builtAt hbuilt
    obtain ⟨a, ha, hlt⟩ := List.any_eq_true.1 hexpired
    exact ⟨next, hnext, a, ha, of_decide_eq_true hlt⟩
  exact ⟨hserved 7 (by decide), hserved 11 (by decide)⟩

open Symbolic in
theorem builtAt_unexpired_at_end : ∃ next,
    BuiltAt declaring declaringConfig declarations 6 declaringRun.active next ∧ next.internal ≠ [] ∧
      ∀ a ∈ next.internal, ∃ e cert, MadeFrom declaring e cert a ∧ a.notAfter = lifeEnd e cert ∧ 6 ≤ a.notAfter := by
  have hbuilt : (declaringNext 6).1.toOption.any fun s => s.internal ≠ [] := by decide +kernel
  obtain ⟨next, hnext, hne⟩ := exists_builtAt hbuilt
  refine ⟨next, hnext, of_decide_eq_true hne, (builtAt_unexpired_iff hnext).2 ?_⟩
  unfold Timely
  rw [if_pos (by decide +kernel)]
  decide +kernel

end TrustAnchor.Ingest
