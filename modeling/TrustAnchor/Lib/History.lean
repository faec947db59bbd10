import Mathlib.Data.List.Infix

/-!
# Histories

A history is a list of entries, newest first, that grows at its head.
-/

namespace TrustAnchor.Lib

variable {α : Type} {P Q : α → Prop} {J : α → List α → Prop}

/-- `P` since `Q`: some entry has `Q`, and every later one has `P`. -/
inductive Since (P Q : α → Prop) : List α → Prop
  | here {a : α} {earlier : List α} : Q a → Since P Q (a :: earlier)
  | still {a : α} {earlier : List α} : P a → Since P Q earlier → Since P Q (a :: earlier)

/-- Every entry is explained by the entries before it. -/
def Explained (J : α → List α → Prop) (history : List α) : Prop :=
  ∀ a earlier, a :: earlier <:+ history → J a earlier

theorem Explained.nil : Explained J [] := by
  intro a earlier h
  simp at h

theorem Explained.cons {a : α} {history : List α} (ha : J a history) (h : Explained J history) :
    Explained J (a :: history) := by
  intro b earlier hb
  rcases List.suffix_cons_iff.1 hb with heq | hb
  · obtain ⟨rfl, rfl⟩ := List.cons.inj heq
    exact ha
  · exact h b earlier hb

end TrustAnchor.Lib
