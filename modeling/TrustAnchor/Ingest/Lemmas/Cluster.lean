import TrustAnchor.Ingest.Cluster
import TrustAnchor.Ingest.Lemmas.Activations

/-!
# What holds of every instance
-/

namespace TrustAnchor.Ingest

open Lib Trust

variable {rt : Runtime} {A : Config → Prop} {P : Snapshot → Prop}

theorem Traced.step {m : Service} (hP : Kept rt A P) {cfg : Config} (hA : A cfg) (h : Traced rt A P m) (op : Op) :
    Traced rt A P (m.step rt cfg op) := by
  have hrun : Traced rt A P (m.run rt [(cfg, op)]) := h.run hP (by simpa using hA)
  exact hrun

/-- Only what the store holds is shared. -/
theorem Traced.withStore {m : Service} (h : Traced rt A P m) {st : Store} (hst : ∀ s ∈ st.snapshot, P s) :
    Traced rt A P { m with store := st } :=
  ⟨h.active, h.served, hst, h.steps⟩

namespace Cluster

variable {c : Cluster}

/-- Every instance is traced on the shared store. -/
def Traced (rt : Runtime) (A : Config → Prop) (P : Snapshot → Prop) (c : Cluster) : Prop :=
  ∀ i, Ingest.Traced rt A P (c.view i)

theorem Traced.empty (maxSize : Int) : Cluster.Traced rt A P (Cluster.empty maxSize) :=
  fun _ => ⟨rfl, by simp [Cluster.empty, view, Service.empty], by simp [Cluster.empty, view], .nil⟩

theorem Traced.step (hP : Kept rt A P) {cfg : Config} (hA : A cfg) (h : Cluster.Traced rt A P c) (i : Nat)
    (op : Op) : Cluster.Traced rt A P (c.step rt i cfg op) := by
  have hi : Ingest.Traced rt A P ((c.view i).step rt cfg op) := (h i).step hP hA op
  intro j
  by_cases hj : j = i
  · subst hj
    simpa [view, Cluster.step] using hi
  · simpa [view, Cluster.step, hj] using (h j).withStore hi.stored

end Cluster

end TrustAnchor.Ingest
