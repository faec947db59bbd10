import Mathlib.Logic.Function.Basic

/-!
# Versions with a latest one

A map of objects in which each save puts its object twice: under a key of its own, then under the key of the latest
one. Puts are atomic and may fail. Of a put that failed it is not known whether the object is stored.
-/

namespace TrustAnchor.Lib.Versioned

variable {κ α : Type}

structure Save (κ α : Type) where
  key : κ
  latest : κ
  value : α

section Saves

variable [DecidableEq κ]

/-- A put that comes from the map `m`, whether it reports a success, and the map after it. -/
inductive Put (k : κ) (a : α) (m : κ → Option α) : Bool → (κ → Option α) → Prop where
  | stored (ok : Bool) : Put k a m ok (Function.update m k (some a))
  | lost : Put k a m false m

/-- The first put that fails ends the save. -/
inductive Save.Takes (s : Save κ α) (m : κ → Option α) : Bool → (κ → Option α) → Prop where
  | failed {m' : κ → Option α} : Put s.key s.value m false m' → Takes s m false m'
  | done {ok : Bool} {m₁ m' : κ → Option α} :
      Put s.key s.value m true m₁ → Put s.latest s.value m₁ ok m' → Takes s m ok m'

variable {m m' : κ → Option α} {k ℓ : κ} {a : α} {ok : Bool} {s : Save κ α}

theorem Put.of_ne (h : Put k a m ok m') (hne : ℓ ≠ k) : m' ℓ = m ℓ := by
  cases h with
  | stored => exact Function.update_of_ne hne _ _
  | lost => rfl

theorem Put.of_ok (h : Put k a m true m') : m' k = some a := by
  cases h with
  | stored => exact Function.update_self _ _ _

theorem Put.cases_self (h : Put k a m ok m') : m' k = some a ∨ (ok = false ∧ m' k = m k) := by
  cases h with
  | stored => exact .inl (Function.update_self _ _ _)
  | lost => exact .inr ⟨rfl, rfl⟩

/-- Nothing is removed, and what is new is the object of the put. -/
theorem Put.cases_at (h : Put k a m ok m') (ℓ : κ) : m' ℓ = m ℓ ∨ (ℓ = k ∧ m' ℓ = some a) := by
  by_cases hk : ℓ = k
  · subst hk
    rcases h.cases_self with hself | ⟨-, hself⟩
    · exact .inr ⟨rfl, hself⟩
    · exact .inl hself
  · exact .inl (h.of_ne hk)

theorem Save.Takes.cases_at (h : s.Takes m ok m') (ℓ : κ) :
    m' ℓ = m ℓ ∨ ((ℓ = s.key ∨ ℓ = s.latest) ∧ m' ℓ = some s.value) := by
  cases h with
  | failed hput =>
      rcases hput.cases_at ℓ with heq | ⟨rfl, heq⟩
      · exact .inl heq
      · exact .inr ⟨.inl rfl, heq⟩
  | done hkey hlatest =>
      rcases hlatest.cases_at ℓ with heq | ⟨rfl, heq⟩
      · rcases hkey.cases_at ℓ with heq' | ⟨rfl, heq'⟩
        · exact .inl (heq.trans heq')
        · exact .inr ⟨.inl rfl, heq.trans heq'⟩
      · exact .inr ⟨.inr rfl, heq⟩

/-- The latest object is replaced by a save that reports a success, and only once its version is stored. -/
theorem Save.Takes.cases_latest (h : s.Takes m ok m') (hne : s.key ≠ s.latest) :
    (m' s.latest = some s.value ∧ m' s.key = some s.value) ∨ (ok = false ∧ m' s.latest = m s.latest) := by
  cases h with
  | failed hput => exact .inr ⟨rfl, hput.of_ne hne.symm⟩
  | done hkey hlatest =>
      rcases hlatest.cases_self with heq | ⟨hok, heq⟩
      · exact .inl ⟨heq, (hlatest.of_ne hne).trans hkey.of_ok⟩
      · exact .inr ⟨hok, heq.trans (hkey.of_ne hne.symm)⟩

end Saves

/-! ## Logs -/

section Log

variable {ι : Type} (save : ι → Option (Save κ α)) (acknowledged : ι → Bool)

/-- The map after the entries of a log, of which some are saves. -/
inductive After [DecidableEq κ] : List ι → (κ → Option α) → Prop where
  | nil : After [] fun _ => none
  | skip {log : List ι} {m : κ → Option α} {e : ι} : After log m → save e = none → After (log ++ [e]) m
  | save {log : List ι} {m m' : κ → Option α} {e : ι} {s : Save κ α} :
      After log m → save e = some s → s.Takes m (acknowledged e) m' → After (log ++ [e]) m'

/-- No save under `ℓ` was acknowledged. -/
def Unacknowledged (ℓ : κ) (log : List ι) : Prop :=
  ∀ e ∈ log, ∀ s ∈ save e, s.latest = ℓ → acknowledged e = false

/-- The latest object under `ℓ`: that of the last save that was acknowledged, or of an attempt after it. Under its
own key the store holds it too, unless a later attempt has put something else there. -/
inductive Latest (ℓ : κ) (holds : κ → α → Prop) (log : List ι) : Option α → Prop where
  | unsaved : Unacknowledged save acknowledged ℓ log → Latest ℓ holds log none
  | saved {before after : List ι} {e : ι} {s : Save κ α} : log = before ++ e :: after → save e = some s →
      s.latest = ℓ → Unacknowledged save acknowledged ℓ after →
      (holds s.key s.value ∨ ∃ e' ∈ after, ∃ s', save e' = some s' ∧ (s.key = s'.key ∨ s.key = s'.latest) ∧
        holds s.key s'.value) → Latest ℓ holds log (some s.value)

variable {save acknowledged} {m m' : κ → Option α} {k ℓ : κ} {a : α} {ok : Bool} {s : Save κ α}
variable {log : List ι} {e : ι} {last : Option α}

theorem Unacknowledged.concat (h : Unacknowledged save acknowledged ℓ log)
    (he : ∀ s ∈ save e, s.latest = ℓ → acknowledged e = false) : Unacknowledged save acknowledged ℓ (log ++ [e]) := by
  intro e' he'
  rcases List.mem_append.1 he' with he' | he'
  · exact h e' he'
  · rw [List.mem_singleton.1 he']
    exact he

theorem Latest.concat {holds holds' : κ → α → Prop} (h : Latest save acknowledged ℓ holds log last)
    (he : ∀ s ∈ save e, s.latest = ℓ → acknowledged e = false)
    (hholds : ∀ k a, holds k a → holds' k a ∨ ∃ s, save e = some s ∧ (k = s.key ∨ k = s.latest) ∧ holds' k s.value) :
    Latest save acknowledged ℓ holds' (log ++ [e]) last := by
  cases h with
  | unsaved hnone => exact .unsaved (hnone.concat he)
  | @saved before after e' s hlog hsave hℓ hafter hkept =>
      have hlog' : log ++ [e] = before ++ e' :: (after ++ [e]) := by simp [hlog]
      refine .saved hlog' hsave hℓ (hafter.concat he) ?_
      rcases hkept with hkept | ⟨e'', he'', s'', hs'', hkey, hkept⟩
      · rcases hholds _ _ hkept with hkept | ⟨s', hs', hkey, hkept⟩
        · exact .inl hkept
        · exact .inr ⟨e, by simp, s', hs', hkey, hkept⟩
      · rcases hholds _ _ hkept with hkept | ⟨s', hs', hkey, hkept⟩
        · exact .inr ⟨e'', by simp [he''], s'', hs'', hkey, hkept⟩
        · exact .inr ⟨e, by simp, s', hs', hkey, hkept⟩

theorem Latest.imp {holds holds' : κ → α → Prop} (h : Latest save acknowledged ℓ holds log last)
    (himp : ∀ e s, save e = some s → ∀ a, holds s.key a → holds' s.key a) :
    Latest save acknowledged ℓ holds' log last := by
  cases h with
  | unsaved hnone => exact .unsaved hnone
  | saved hlog hsave hℓ hafter hkept =>
      refine .saved hlog hsave hℓ hafter (hkept.imp (himp _ _ hsave _) ?_)
      rintro ⟨e', he', s', hs', hkey, hkept⟩
      exact ⟨e', he', s', hs', hkey, himp _ _ hsave _ hkept⟩

/-- No version is stored under `ℓ`. -/
def Apart (save : ι → Option (Save κ α)) (ℓ : κ) : Prop := ∀ e s, save e = some s → s.key ≠ ℓ

variable [DecidableEq κ]

/-- What a save does to the latest object under `ℓ`. -/
theorem Apart.takes_cases (hapart : Apart save ℓ) (hsave : save e = some s) (h : s.Takes m ok m') :
    (s.latest = ℓ ∧ m' ℓ = some s.value ∧ m' s.key = some s.value) ∨
      ((s.latest = ℓ → ok = false) ∧ m' ℓ = m ℓ) := by
  have hkey : s.key ≠ ℓ := hapart e s hsave
  by_cases hlatest : s.latest = ℓ
  · subst hlatest
    rcases h.cases_latest hkey with ⟨heq, hversion⟩ | ⟨hok, heq⟩
    · exact .inl ⟨rfl, heq, hversion⟩
    · exact .inr ⟨fun _ => hok, heq⟩
  · rcases h.cases_at ℓ with heq | ⟨hℓ | hℓ, -⟩
    · exact .inr ⟨fun hℓ => absurd hℓ hlatest, heq⟩
    · exact absurd hℓ.symm hkey
    · exact absurd hℓ.symm hlatest

theorem After.latest (hapart : Apart save ℓ) (h : After save acknowledged log m) :
    Latest save acknowledged ℓ (fun k a => m k = some a) log (m ℓ) := by
  induction h with
  | nil => exact .unsaved nofun
  | skip _ hsave ih => exact ih.concat (by simp [hsave]) fun _ _ => .inl
  | @save log m m' e s _ hsave htakes ih =>
      rcases hapart.takes_cases hsave htakes with ⟨hlatest, heq, hversion⟩ | ⟨hok, heq⟩
      · rw [heq]
        exact .saved rfl hsave hlatest nofun (.inl hversion)
      · rw [heq]
        refine ih.concat (fun s' hs' => ?_) fun k a hka => ?_
        · cases hsave.symm.trans hs'
          exact hok
        · rcases htakes.cases_at k with hsame | ⟨hkey, hnew⟩
          · exact .inl (hsame.trans hka)
          · exact .inr ⟨s, hsave, hkey, hnew⟩

/-- Every object is that of a save under its key. -/
theorem After.origin (h : After save acknowledged log m) (hk : m k = some a) :
    ∃ e ∈ log, ∃ s, save e = some s ∧ (k = s.key ∨ k = s.latest) ∧ s.value = a := by
  induction h with
  | nil => simp at hk
  | skip _ _ ih =>
      obtain ⟨e', he', hs'⟩ := ih hk
      exact ⟨e', List.mem_append_left _ he', hs'⟩
  | @save log m m' e s _ hsave htakes ih =>
      rcases htakes.cases_at k with heq | ⟨hkey, heq⟩
      · obtain ⟨e', he', hs'⟩ := ih (heq ▸ hk)
        exact ⟨e', List.mem_append_left _ he', hs'⟩
      · cases heq.symm.trans hk
        exact ⟨e, by simp, s, hsave, hkey, rfl⟩

end Log

end TrustAnchor.Lib.Versioned
