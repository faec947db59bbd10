import TrustAnchor.Store.Backends
import TrustAnchor.Trust.Lemmas.Diff
import Mathlib.Data.List.Induction

/-!
# What the object backends hold

The keys of the four kinds of objects are apart, so that each kind is a map of its own.
-/

namespace TrustAnchor.Store

open Lib Trust

variable {c : Codec}

/-! ## Maps -/

section Maps

variable {α : Type} {m : List (String × α)} {k k' : String} {v : α}

theorem lookup_mapInsert : (mapInsert m k v).lookup k' = if k' = k then some v else m.lookup k' := by
  unfold mapInsert
  induction m with
  | nil =>
      by_cases h : k' = k
      · simp [h]
      · have hne : (k' == k) = false := beq_false_of_ne h
        simp [List.lookup_cons, hne, h]
  | cons e m ih =>
      obtain ⟨x, w⟩ := e
      by_cases hx : x = k
      · rw [List.filter_cons_of_neg (by simpa using hx), ih]
        by_cases h : k' = k
        · simp [h]
        · have hne : (k' == x) = false := beq_false_of_ne (hx ▸ h)
          simp [h, List.lookup_cons, hne]
      · rw [List.filter_cons_of_pos (by simpa using hx), List.cons_append, List.lookup_cons, List.lookup_cons, ih]
        by_cases h : k' = x
        · simp [h, hx]
        · simp [beq_false_of_ne h]

/-- Among the entries with some keys, an insertion under another key does not show. -/
theorem filter_mapInsert {p : String → Bool} : (mapInsert m k v).filter (fun e => p e.1) =
    if p k then mapInsert (m.filter fun e => p e.1) k v else m.filter fun e => p e.1 := by
  unfold mapInsert
  split_ifs with hp
  · simp [List.filter_append, hp, List.filter_filter, Bool.and_comm]
  · rw [List.filter_append, List.filter_filter]
    have hpart : m.filter (fun e => p e.1 && decide (e.1 ≠ k)) = m.filter fun e => p e.1 := by
      refine List.filter_congr fun e _ => ?_
      by_cases he : e.1 = k <;> simp [he, hp]
    have hnone : [(k, v)].filter (fun e => p e.1) = [] := by simpa using hp
    rw [hpart, hnone, List.append_nil]

theorem keys_foldl_mapInsert_subset (es : List (String × α)) :
    (es.foldl (fun m e => mapInsert m e.1 e.2) []).map Prod.fst ⊆ es.map Prod.fst := by
  refine List.foldlRecOn (motive := fun m : List (String × α) => m.map Prod.fst ⊆ es.map Prod.fst) _ _ (by simp) ?_
  intro m hm e he k hk
  rw [mapInsert, List.map_append, List.mem_append] at hk
  rcases hk with hk | hk
  · exact hm ((List.filter_sublist.map _).subset hk)
  · obtain rfl : k = e.1 := by simpa using hk
    exact List.mem_map_of_mem he

/-- Nothing is overwritten exactly if no key comes twice. -/
theorem foldl_mapInsert_eq_iff (es : List (String × α)) :
    (es.foldl (fun m e => mapInsert m e.1 e.2) []).map Prod.snd = es.map Prod.snd ↔ (es.map Prod.fst).Nodup := by
  constructor
  · intro h
    have hlength : ((es.foldl (fun m e => mapInsert m e.1 e.2) []).map Prod.fst).length =
        (es.map Prod.fst).length := by simpa using congrArg List.length h
    have hsub := List.subperm_of_subset (foldl_mapInsert_nodup es) (keys_foldl_mapInsert_subset es)
    exact (hsub.perm_of_length_le hlength.ge).nodup_iff.1 (foldl_mapInsert_nodup es)
  · intro h
    rw [foldl_mapInsert (by simpa using h), List.nil_append]

end Maps

/-! ## Keys -/

/-- The key is in the directory. -/
def under (dir key : String) : Bool := dir.toList.isPrefixOf key.toList

def snapshotDir : String := "snapshots/"

def bootstrapDir : String := "bootstrap/"

theorem under_append (dir rest : String) : under dir (dir ++ rest) = true := by
  simp [under, List.isPrefixOf_iff_prefix]

/-- A key is in one directory, and the keys of the latest objects are in none. -/
theorem snapshotKey_under {s : Snapshot} {key : String} (h : snapshotKey c s = some key) :
    under snapshotDir key ∧ under bootstrapDir key = false := by
  unfold snapshotKey at h
  split_ifs at h
  cases h
  simp only [String.append_assoc]
  refine ⟨under_append snapshotDir _, ?_⟩
  simp [under, bootstrapDir, List.isPrefixOf]

theorem bootstrapKey_under (b : Bootstrap) :
    under bootstrapDir (bootstrapKey b) ∧ under snapshotDir (bootstrapKey b) = false := by
  have hkey : bootstrapKey b = bootstrapDir ++ ("v" ++ pad4 b.version ++ ".json") := by
    simp [bootstrapKey, bootstrapDir, ← String.append_assoc]
  rw [hkey]
  refine ⟨under_append bootstrapDir _, ?_⟩
  simp [under, snapshotDir, bootstrapDir, List.isPrefixOf]

theorem ofDigitChars_leftpad (w n : Nat) :
    Nat.ofDigitChars 10 ((toString n).toList.leftpad w '0') 0 = n := by
  rw [Nat.toString_eq_repr, Nat.toList_repr, List.leftpad, Nat.ofDigitChars_append,
    Nat.ofDigitChars_replicate_zero, Nat.mul_zero, Nat.ofDigitChars_ten_toDigits]

theorem sign_notMem_leftpad (w n : Nat) : '-' ∉ (toString n).toList.leftpad w '0' := by
  rw [Nat.toString_eq_repr, Nat.toList_repr, List.leftpad, List.mem_append, not_or]
  constructor
  · intro h
    exact absurd (List.eq_of_mem_replicate h) (by decide)
  · intro h
    exact absurd (Nat.isDigit_of_mem_toDigits (by omega) (by omega) h) (by decide)

theorem pad4_injective : Function.Injective pad4 := by
  intro n n' h
  have hchars := congrArg String.toList h
  unfold pad4 at hchars
  simp only at hchars
  split_ifs at hchars with hn hn' hn' <;> simp only [String.toList_ofList] at hchars
  · have habs := congrArg (Nat.ofDigitChars 10 · 0) (List.cons.inj hchars).2
    simp only [ofDigitChars_leftpad] at habs
    omega
  · exact absurd (hchars ▸ List.mem_cons_self) (sign_notMem_leftpad 4 n'.natAbs)
  · exact absurd (hchars ▸ List.mem_cons_self) (sign_notMem_leftpad 4 n.natAbs)
  · have habs := congrArg (Nat.ofDigitChars 10 · 0) hchars
    simp only [ofDigitChars_leftpad] at habs
    omega

/-- A version has a key of its own. -/
theorem bootstrapKey_inj {b b' : Bootstrap} : bootstrapKey b = bootstrapKey b' ↔ b.version = b'.version := by
  constructor
  · intro h
    have hchars := congrArg String.toList h
    simp only [bootstrapKey, String.toList_append, List.append_cancel_right_eq,
      List.append_cancel_left_eq, String.toList_inj] at hchars
    exact pad4_injective hchars
  · intro h
    rw [bootstrapKey, bootstrapKey, h]

/-! ## Saves -/

/-- What the calls saved, oldest first. -/
def savedSnapshots (calls : List Call) : List Snapshot :=
  calls.filterMap fun call =>
    match call with
    | .saveSnapshot s => some s
    | _ => none

def savedBootstraps (calls : List Call) : List Bootstrap :=
  calls.filterMap fun call =>
    match call with
    | .saveBootstrap b => some b
    | _ => none

/-- The snapshot has an id that a key can be made of, and what is saved has a JSON text. -/
def Valid (c : Codec) : Call → Prop
  | .saveSnapshot s => 16 ≤ s.id.toList.length ∧ ∃ raw, c.marshalSnapshot s = .ok raw
  | .saveBootstrap b => ∃ raw, c.marshalBootstrap b = .ok raw
  | _ => True

/-- The JSON text, if there is one. -/
def rawSnapshot (c : Codec) (s : Snapshot) : Bytes := (c.marshalSnapshot s).toOption.getD []

def rawBootstrap (c : Codec) (b : Bootstrap) : Bytes := (c.marshalBootstrap b).toOption.getD []

/-- The objects of a save under their keys. -/
def snapshotObject (c : Codec) (s : Snapshot) : String × Bytes := ((snapshotKey c s).getD "", rawSnapshot c s)

def bootstrapObject (c : Codec) (b : Bootstrap) : String × Bytes := (bootstrapKey b, rawBootstrap c b)

namespace Objects

/-- The objects after the calls: the latest ones, and those in the directories. -/
structure Holds (c : Codec) (calls : List Call) (objects : Objects) : Prop where
  latestSnapshot : objects.lookup latestSnapshotKey = (savedSnapshots calls).getLast?.map (rawSnapshot c)
  latestBootstrap : objects.lookup latestBootstrapKey = (savedBootstraps calls).getLast?.map (rawBootstrap c)
  snapshots : objects.filter (fun e => under snapshotDir e.1) =
    ((savedSnapshots calls).map (snapshotObject c)).foldl (fun m e => mapInsert m e.1 e.2) []
  bootstraps : objects.filter (fun e => under bootstrapDir e.1) =
    ((savedBootstraps calls).map (bootstrapObject c)).foldl (fun m e => mapInsert m e.1 e.2) []

/-- The objects after a save. -/
def stored (key latest : String) (raw : Bytes) (objects : Objects) : Objects :=
  mapInsert (mapInsert objects key raw) latest raw

section Stored

variable {objects : Objects} {key latest other dir : String} {raw : Bytes}

theorem save_ok : save key latest (.ok raw) objects = (.ok (), stored key latest raw objects) := rfl

theorem lookup_stored_latest : (stored key latest raw objects).lookup latest = some raw := by
  rw [stored, lookup_mapInsert, if_pos rfl]

theorem lookup_stored_of_ne (hkey : other ≠ key) (hlatest : other ≠ latest) :
    (stored key latest raw objects).lookup other = objects.lookup other := by
  rw [stored, lookup_mapInsert, if_neg hlatest, lookup_mapInsert, if_neg hkey]

theorem filter_stored_inside (hkey : under dir key) (hlatest : under dir latest = false) :
    (stored key latest raw objects).filter (fun e => under dir e.1) =
      mapInsert (objects.filter fun e => under dir e.1) key raw := by
  rw [stored, filter_mapInsert, if_neg (by simp [hlatest]), filter_mapInsert, if_pos hkey]

theorem filter_stored_outside (hkey : under dir key = false) (hlatest : under dir latest = false) :
    (stored key latest raw objects).filter (fun e => under dir e.1) = objects.filter fun e => under dir e.1 := by
  rw [stored, filter_mapInsert, if_neg (by simp [hlatest]), filter_mapInsert, if_neg (by simp [hkey])]

theorem ne_of_under (h : under dir key) (hother : under dir other = false) : other ≠ key := by
  rintro rfl
  rw [h] at hother
  cases hother

end Stored

theorem saveSnapshot_valid {s : Snapshot} (h : Valid c (.saveSnapshot s)) : ∃ key, snapshotKey c s = some key ∧
    ∀ objects, saveSnapshot c s objects = (.ok (), stored key latestSnapshotKey (rawSnapshot c s) objects) := by
  obtain ⟨hid, raw, hraw⟩ := h
  obtain ⟨key, hkey⟩ : ∃ key, snapshotKey c s = some key := by simp [snapshotKey, hid]
  refine ⟨key, hkey, fun objects => ?_⟩
  simp [saveSnapshot, hkey, hraw, save_ok, rawSnapshot, Except.toOption]

theorem saveBootstrap_valid {b : Bootstrap} (h : Valid c (.saveBootstrap b)) (objects : Objects) :
    saveBootstrap c b objects = (.ok (), stored (bootstrapKey b) latestBootstrapKey (rawBootstrap c b) objects) := by
  obtain ⟨raw, hraw⟩ := h
  simp [saveBootstrap, hraw, save_ok, rawBootstrap, Except.toOption]

theorem get_state {α : Type} {key : String} {unmarshal : Bytes → Except String α} {objects : Objects} :
    (get key unmarshal objects).2 = objects := by
  unfold get
  split <;> rfl

theorem Holds.congr {calls calls' : List Call} {objects : Objects} (h : Holds c calls objects)
    (hsnapshots : savedSnapshots calls' = savedSnapshots calls)
    (hbootstraps : savedBootstraps calls' = savedBootstraps calls) : Holds c calls' objects := by
  refine ⟨?_, ?_, ?_, ?_⟩
  · rw [hsnapshots, h.latestSnapshot]
  · rw [hbootstraps, h.latestBootstrap]
  · rw [hsnapshots, h.snapshots]
  · rw [hbootstraps, h.bootstraps]

theorem Holds.step {calls : List Call} {objects : Objects} (h : Holds c calls objects) {call : Call}
    (hvalid : Valid c call) : Holds c (calls ++ [call]) (advance (step c) call objects) := by
  cases call with
  | saveSnapshot s =>
      obtain ⟨key, hkey, hsave⟩ := saveSnapshot_valid hvalid
      obtain ⟨hin, hout⟩ := snapshotKey_under hkey
      have hobject : snapshotObject c s = (key, rawSnapshot c s) := by simp [snapshotObject, hkey]
      have hstate : advance (Objects.step c) (.saveSnapshot s) objects =
          stored key latestSnapshotKey (rawSnapshot c s) objects := congrArg Prod.snd (hsave objects)
      have hsnapshots : savedSnapshots (calls ++ [.saveSnapshot s]) = savedSnapshots calls ++ [s] := by
        simp [savedSnapshots]
      have hbootstraps : savedBootstraps (calls ++ [.saveSnapshot s]) = savedBootstraps calls := by
        simp [savedBootstraps]
      rw [hstate]
      refine ⟨?_, ?_, ?_, ?_⟩
      · rw [lookup_stored_latest, hsnapshots, List.getLast?_concat, Option.map_some]
      · rw [lookup_stored_of_ne (ne_of_under hin (by decide)) (by decide), hbootstraps, h.latestBootstrap]
      · rw [filter_stored_inside hin (by decide), h.snapshots, hsnapshots, List.map_append, List.foldl_append,
          List.map_singleton, hobject]
        rfl
      · rw [filter_stored_outside hout (by decide), h.bootstraps, hbootstraps]
  | saveBootstrap b =>
      obtain ⟨hin, hout⟩ := bootstrapKey_under b
      have hstate : advance (Objects.step c) (.saveBootstrap b) objects =
          stored (bootstrapKey b) latestBootstrapKey (rawBootstrap c b) objects :=
        congrArg Prod.snd (saveBootstrap_valid hvalid objects)
      have hsnapshots : savedSnapshots (calls ++ [.saveBootstrap b]) = savedSnapshots calls := by
        simp [savedSnapshots]
      have hbootstraps : savedBootstraps (calls ++ [.saveBootstrap b]) = savedBootstraps calls ++ [b] := by
        simp [savedBootstraps]
      rw [hstate]
      refine ⟨?_, ?_, ?_, ?_⟩
      · rw [lookup_stored_of_ne (ne_of_under hin (by decide)) (by decide), hsnapshots, h.latestSnapshot]
      · rw [lookup_stored_latest, hbootstraps, List.getLast?_concat, Option.map_some]
      · rw [filter_stored_outside hout (by decide), h.snapshots, hsnapshots]
      · rw [filter_stored_inside hin (by decide), h.bootstraps, hbootstraps, List.map_append, List.foldl_append]
        rfl
  | loadLatestSnapshot =>
      have hstate : advance (Objects.step c) .loadLatestSnapshot objects = objects := get_state
      rw [hstate]
      exact h.congr (by simp [savedSnapshots]) (by simp [savedBootstraps])
  | loadLatestBootstrap =>
      have hstate : advance (Objects.step c) .loadLatestBootstrap objects = objects := get_state
      rw [hstate]
      exact h.congr (by simp [savedSnapshots]) (by simp [savedBootstraps])

theorem holds_run {calls : List Call} (hvalid : ∀ call ∈ calls, Valid c call) :
    Holds c calls (runFrom (advance (step c)) calls []) := by
  induction calls using List.reverseRecOn with
  | nil => exact ⟨rfl, rfl, rfl, rfl⟩
  | append_singleton calls call ih =>
      rw [runFrom, List.foldl_append]
      exact (ih fun call' hcall' => hvalid call' (List.mem_append_left _ hcall')).step (hvalid call (by simp))

end Objects

end TrustAnchor.Store
