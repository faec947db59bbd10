import TrustAnchor.Lib.Versioned
import TrustAnchor.Store.Files
import TrustAnchor.Store.Theorems.Agreement

/-!
# What faults leave of a save

The file backend puts an object as a whole or not at all, so that it is a map of versions with a latest one.
-/

namespace TrustAnchor.Store

open Lib Trust

variable {c : Codec} {s : Disk} {key : String} {b : Bytes}

theorem operation_cases (effect : Option Nat → Objects → Objects) (s : Disk) :
    (∃ fates, operation effect s = (.ok (), ⟨effect none s.files, fates⟩)) ∨
      ∃ err point fates, operation effect s = (.error err, ⟨effect (some point) s.files, fates⟩) := by
  obtain ⟨objects, _ | ⟨fate, fates⟩⟩ := s
  · exact .inl ⟨[], rfl⟩
  cases fate with
  | done => exact .inl ⟨fates, rfl⟩
  | breaks err point => exact .inr ⟨err, point, fates, rfl⟩

/-- A put of `b` under the name stores it or, if it fails, may change nothing; the name with `.tmp` apart. -/
def Settles (name : String) (b : Bytes) (s : Disk) (out : Except String Unit × Disk) : Prop :=
  (∀ path ≠ name ++ ".tmp", out.2.files.lookup path = if path = name then some b else s.files.lookup path) ∨
    (out.1.isOk = false ∧ ∀ path ≠ name ++ ".tmp", out.2.files.lookup path = s.files.lookup path)

theorem lookup_erase {α : Type} {m : List (String × α)} {k k' : String} (h : k' ≠ k) :
    (m.filter (·.1 ≠ k)).lookup k' = m.lookup k' := by
  induction m with
  | nil => rfl
  | cons e m ih =>
      obtain ⟨x, v⟩ := e
      by_cases hx : x = k
      · have hne : (k' == x) = false := beq_false_of_ne (hx ▸ h)
        rw [List.filter_cons_of_neg (by simpa using hx), ih, List.lookup_cons, hne]
      · rw [List.filter_cons_of_pos (by simpa using hx), List.lookup_cons, List.lookup_cons, ih]

theorem FS.rename_settles {files : Objects} {fates : List Fate} (h : files.lookup (key ++ ".tmp") = some b)
    (hfiles : ∀ path ≠ key ++ ".tmp", files.lookup path = s.files.lookup path) :
    Settles key b s (FS.rename (key ++ ".tmp") key ⟨files, fates⟩) := by
  have hmoved : ∀ path ≠ key ++ ".tmp", (mapInsert (files.filter (·.1 ≠ key ++ ".tmp")) key b).lookup path =
      if path = key then some b else s.files.lookup path := by
    intro path hpath
    rw [lookup_mapInsert, lookup_erase hpath, hfiles path hpath]
  simp only [FS.rename, Fallible.bind_run, lookup, h]
  rcases operation_cases _ ⟨files, fates⟩ with ⟨fates, hrename⟩ | ⟨err, point, fates, hrename⟩ <;> rw [hrename]
  · exact .inl hmoved
  · cases point with
    | zero => exact .inr ⟨rfl, hfiles⟩
    | succ n => exact .inl hmoved

theorem FS.put_settles (key : String) (b : Bytes) (s : Disk) : Settles key b s (FS.put key (.ok b) s) := by
  have hwritten : ∀ b' : Bytes, ∀ path ≠ key ++ ".tmp",
      (mapInsert s.files (key ++ ".tmp") b').lookup path = s.files.lookup path := by
    intro b' path hpath
    rw [lookup_mapInsert, if_neg hpath]
  simp only [FS.put, Fallible.ofExcept_ok_bind_run]
  rw [Fallible.bind_run, FS.mkdirAll]
  rcases operation_cases (fun _ => id) s with ⟨fates, hmkdir⟩ | ⟨err, point, fates, hmkdir⟩ <;> rw [hmkdir]
  · simp only [Fallible.bind_run, FS.writeFile]
    rcases operation_cases _ _ with ⟨fates, hwrite⟩ | ⟨err, point, fates, hwrite⟩ <;> rw [hwrite]
    · refine FS.rename_settles ?_ (hwritten b)
      rw [lookup_mapInsert, if_pos rfl]
    · cases point with
      | zero => exact .inr ⟨rfl, fun _ _ => rfl⟩
      | succ n => exact .inr ⟨rfl, hwritten _⟩
  · exact .inr ⟨rfl, fun _ _ => rfl⟩

/-! ## The abstract map -/

inductive Object where
  | snapshot (s : Snapshot)
  | bootstrap (b : Bootstrap)

def Object.marshal (c : Codec) : Object → Except String Bytes
  | .snapshot s => c.marshalSnapshot s
  | .bootstrap b => c.marshalBootstrap b

namespace FS

/-- The key of a file that a put has not finished. -/
def isTmp (key : String) : Bool := ".tmp".toList.isSuffixOf key.toList

/-- Under the key there is the object, marshalled. -/
def Holds (c : Codec) (files : Objects) (key : String) (o : Object) : Prop :=
  ∃ raw, o.marshal c = .ok raw ∧ files.lookup key = some raw

/-- Under each key there is what the map has, marshalled. -/
def Represents (c : Codec) (m : String → Option Object) (files : Objects) : Prop :=
  ∀ key, isTmp key = false → (files.lookup key).map Except.ok = (m key).map (Object.marshal c)

variable {m : String → Option Object} {files : Objects}

theorem Represents.holds (h : Represents c m files) {o : Object} (hkey : isTmp key = false) (ho : m key = some o) :
    Holds c files key o := by
  have hrep := h key hkey
  rw [ho, Option.map_some] at hrep
  obtain ⟨raw, hlookup, hraw⟩ := Option.map_eq_some_iff.1 hrep
  exact ⟨raw, hraw.symm, hlookup⟩

theorem Represents.put (h : Represents c m s.files) (key : String) (o : Object) :
    ∃ m', Versioned.Put key o m (FS.put key (o.marshal c) s).1.isOk m' ∧
      Represents c m' (FS.put key (o.marshal c) s).2.files := by
  have hapart : ∀ key', isTmp key' = false → key' ≠ key ++ ".tmp" := by
    rintro _ hkey' rfl
    rw [isTmp, String.toList_append] at hkey'
    have hsuffix := List.isSuffixOf_iff_suffix.2 (List.suffix_append key.toList ".tmp".toList)
    rw [hsuffix] at hkey'
    cases hkey'
  cases hmarshal : o.marshal c with
  | error err => exact ⟨m, .lost, h⟩
  | ok b =>
      rcases put_settles key b s with hstored | ⟨hfailed, hsame⟩
      · refine ⟨Function.update m key (some o), .stored _, fun key' hkey' => ?_⟩
        rw [hstored _ (hapart key' hkey')]
        by_cases heq : key' = key
        · simp [heq, hmarshal]
        · rw [if_neg heq, Function.update_of_ne heq]
          exact h key' hkey'
      · refine ⟨m, hfailed ▸ .lost, fun key' hkey' => ?_⟩
        rw [hsame _ (hapart key' hkey')]
        exact h key' hkey'

/-- A save is one of the map. -/
theorem Represents.save (h : Represents c m s.files) (key latest : String) (o : Object) :
    ∃ m', Versioned.Save.Takes ⟨key, latest, o⟩ m (FS.save key latest (o.marshal c) s).1.isOk m' ∧
      Represents c m' (FS.save key latest (o.marshal c) s).2.files := by
  obtain ⟨m₁, hput, hm₁⟩ := h.put key o
  rw [FS.save, Fallible.bind_run]
  rcases hfirst : FS.put key (o.marshal c) s with ⟨err | u, s₁⟩ <;> rw [hfirst] at hput hm₁
  · exact ⟨m₁, .failed hput, hm₁⟩
  · obtain ⟨m', hput', hm'⟩ := hm₁.put latest o
    exact ⟨m', .done hput hput', hm'⟩

/-! ## Runs -/

/-- A call with its reply. -/
abbrev Entry := (Call × List Fate) × Reply

/-- The save that an entry is; without a key there is none. -/
def entrySave (c : Codec) (e : Entry) : Option (Versioned.Save String Object) :=
  match e.1.1 with
  | .saveSnapshot snap => (snapshotKey c snap).map fun key => ⟨key, latestSnapshotKey, .snapshot snap⟩
  | .saveBootstrap b => some ⟨bootstrapKey b, latestBootstrapKey, .bootstrap b⟩
  | .loadLatestSnapshot | .loadLatestBootstrap => none

/-- The caller was told that the save is done. -/
def acknowledged (e : Entry) : Bool :=
  match e.2 with
  | .saved r => r.isOk
  | _ => false

/-- A call that is logged with its reply. -/
def logged (c : Codec) (call : Call × List Fate) (files : Objects) : Entry × Objects :=
  ((call, (step c call files).1), (step c call files).2)

/-- Whether it breaks or not, asking changes nothing. -/
theorem operation_id (s : Disk) : (operation (fun _ => id) s).2.files = s.files := by
  rcases operation_cases (fun _ => id) s with ⟨fates, h⟩ | ⟨err, point, fates, h⟩ <;> rw [h] <;> rfl

theorem readFile_files (key : String) (s : Disk) : (readFile key s).2.files = s.files := by
  have hid := operation_id s
  simp only [readFile, Fallible.bind_run]
  split <;> simp_all [Store.lookup]

theorem get_files {α : Type} (key : String) (unmarshal : Bytes → Except String α) (s : Disk) :
    (get key unmarshal s).2.files = s.files := by
  have hread := readFile_files key s
  rw [FS.get, Fallible.bind_run]
  rcases hs : readFile key s with ⟨err | _ | b, s₁⟩ <;> rw [hs] at hread <;> exact hread

theorem Represents.step (h : Represents c m files) (call : Call × List Fate) :
    (entrySave c (logged c call files).1 = none ∧ Represents c m (logged c call files).2) ∨
      ∃ s m', entrySave c (logged c call files).1 = some s ∧ s.Takes m (acknowledged (logged c call files).1) m' ∧
        Represents c m' (logged c call files).2 := by
  obtain ⟨call, fates⟩ := call
  cases call with
  | saveSnapshot snap =>
      cases hkey : snapshotKey c snap with
      | none =>
          have hstate : (logged c (.saveSnapshot snap, fates) files).2 = files := by
            simp [logged, FS.step, saveSnapshot, hkey]
          rw [hstate]
          exact .inl ⟨by simp [logged, entrySave, hkey], h⟩
      | some key =>
          have hrep : Represents c m (⟨files, fates⟩ : Disk).files := h
          obtain ⟨m', htakes, hm'⟩ := hrep.save key latestSnapshotKey (.snapshot snap)
          refine .inr ⟨⟨key, latestSnapshotKey, .snapshot snap⟩, m', by simp [logged, entrySave, hkey], ?_, ?_⟩
          · simpa [logged, FS.step, saveSnapshot, hkey, acknowledged, Object.marshal] using htakes
          · simpa [logged, FS.step, saveSnapshot, hkey, Object.marshal] using hm'
  | saveBootstrap b =>
      have hrep : Represents c m (⟨files, fates⟩ : Disk).files := h
      obtain ⟨m', htakes, hm'⟩ := hrep.save (bootstrapKey b) latestBootstrapKey (.bootstrap b)
      exact .inr ⟨_, m', rfl, htakes, hm'⟩
  | loadLatestSnapshot =>
      have hstate : (logged c (.loadLatestSnapshot, fates) files).2 = files := get_files _ _ _
      rw [hstate]
      exact .inl ⟨rfl, h⟩
  | loadLatestBootstrap =>
      have hstate : (logged c (.loadLatestBootstrap, fates) files).2 = files := get_files _ _ _
      rw [hstate]
      exact .inl ⟨rfl, h⟩

/-- After every run the files are a map that the library knows. -/
theorem represents_run (c : Codec) (calls : List (Call × List Fate)) :
    ∃ m, Versioned.After (entrySave c) acknowledged (replies (logged c) calls []) m ∧
      Represents c m (runFrom (advance (logged c)) calls []) := by
  induction calls using List.reverseRecOn with
  | nil => exact ⟨_, .nil, fun _ _ => rfl⟩
  | append_singleton calls call ih =>
      obtain ⟨m, hafter, hm⟩ := ih
      have hrun : runFrom (advance (logged c)) (calls ++ [call]) [] =
          (logged c call (runFrom (advance (logged c)) calls [])).2 := by
        rw [runFrom, List.foldl_append]
        rfl
      rw [replies_concat, hrun]
      rcases hm.step call with ⟨hnone, hm'⟩ | ⟨s, m', hsome, htakes, hm'⟩
      · exact ⟨m, hafter.skip hnone, hm'⟩
      · exact ⟨m', hafter.save hsome htakes, hm'⟩

/-! ## Keys -/

theorem isTmp_json (stem : String) : isTmp (stem ++ ".json") = false := by
  simp [isTmp, List.isSuffixOf, List.isPrefixOf]

theorem entrySave_cases {e : Entry} {s : Versioned.Save String Object} (h : entrySave c e = some s) :
    (∃ snap, snapshotKey c snap = some s.key ∧ s = ⟨s.key, latestSnapshotKey, .snapshot snap⟩) ∨
      ∃ b, s = ⟨bootstrapKey b, latestBootstrapKey, .bootstrap b⟩ := by
  obtain ⟨⟨call, fates⟩, reply⟩ := e
  cases call with
  | saveSnapshot snap =>
      obtain ⟨key, hkey, rfl⟩ := Option.map_eq_some_iff.1 h
      exact .inl ⟨snap, hkey, rfl⟩
  | saveBootstrap b =>
      cases h
      exact .inr ⟨b, rfl⟩
  | loadLatestSnapshot | loadLatestBootstrap => cases h

theorem entrySave_isTmp {e : Entry} {s : Versioned.Save String Object} (h : entrySave c e = some s) :
    isTmp s.key = false := by
  rcases entrySave_cases h with ⟨snap, hkey, -⟩ | ⟨b, rfl⟩
  · unfold snapshotKey at hkey
    split_ifs at hkey
    rw [← Option.some.inj hkey]
    exact isTmp_json _
  · exact isTmp_json _

theorem apart_latest {ℓ : String} (hsnapshots : under snapshotDir ℓ = false)
    (hbootstraps : under bootstrapDir ℓ = false) : Versioned.Apart (entrySave c) ℓ := by
  intro e s h
  rcases entrySave_cases h with ⟨snap, hkey, -⟩ | ⟨b, rfl⟩
  · exact (Objects.ne_of_under (snapshotKey_under hkey).1 hsnapshots).symm
  · exact (Objects.ne_of_under (bootstrapKey_under b).1 hbootstraps).symm

theorem Represents.get_eq {α β : Type} {unmarshal : Bytes → Except String α} {last : Option β} {object : β → Object}
    {value : β → α} (h : Represents c m files) (hkey : isTmp key = false) (hm : m key = last.map object)
    (hdecode : ∀ b raw, (object b).marshal c = .ok raw → unmarshal raw = .ok (value b)) :
    (get key unmarshal ⟨files, []⟩).1 = .ok (last.map value) := by
  have hread : readFile key ⟨files, []⟩ = (.ok (files.lookup key), ⟨files, []⟩) := rfl
  rw [FS.get, Fallible.bind_run, hread]
  cases last with
  | none =>
      have hrep := h key hkey
      rw [hm, Option.map_none, Option.map_none, Option.map_eq_none_iff] at hrep
      rw [hrep]
      rfl
  | some b =>
      obtain ⟨raw, hraw, hlookup⟩ := h.holds hkey hm
      simp [hlookup, hdecode b raw hraw, Except.map]

variable {log : List Entry}

/-- What is under `ℓ`, in terms of the log and of the files. -/
theorem Represents.latest {ℓ : String} (h : Represents c m files)
    (hafter : Versioned.After (entrySave c) acknowledged log m) (hapart : Versioned.Apart (entrySave c) ℓ) :
    Versioned.Latest (entrySave c) acknowledged ℓ (Holds c files) log (m ℓ) :=
  (hafter.latest hapart).imp fun _ _ hs _ => h.holds (entrySave_isTmp hs)

theorem eq_snapshot {o : Option Object}
    (h : Versioned.Latest (entrySave c) acknowledged latestSnapshotKey (Holds c files) log o) :
    ∃ last : Option Snapshot, o = last.map .snapshot := by
  cases h with
  | unsaved _ => exact ⟨none, rfl⟩
  | saved _ hs hℓ _ _ =>
      rcases entrySave_cases hs with ⟨snap, -, heq⟩ | ⟨b, rfl⟩
      · rw [heq]
        exact ⟨some snap, rfl⟩
      · exact absurd hℓ (by decide : latestBootstrapKey ≠ latestSnapshotKey)

theorem eq_bootstrap {o : Option Object}
    (h : Versioned.Latest (entrySave c) acknowledged latestBootstrapKey (Holds c files) log o) :
    ∃ last : Option Bootstrap, o = last.map .bootstrap := by
  cases h with
  | unsaved _ => exact ⟨none, rfl⟩
  | saved _ hs hℓ _ _ =>
      rcases entrySave_cases hs with ⟨snap, -, heq⟩ | ⟨b, rfl⟩
      · rw [heq] at hℓ
        exact absurd hℓ (by decide : latestSnapshotKey ≠ latestBootstrapKey)
      · exact ⟨some b, rfl⟩

theorem Represents.latestSnapshot (hc : RoundTrips c) (h : Represents c m files)
    (hafter : Versioned.After (entrySave c) acknowledged log m) : ∃ last : Option Snapshot,
      Versioned.Latest (entrySave c) acknowledged latestSnapshotKey (Holds c files) log (last.map .snapshot) ∧
      (FS.step c (.loadLatestSnapshot, []) files).1 =
        .snapshot (.ok (last.map fun s => { s with declaredLoad := none })) := by
  have hlatest := h.latest hafter (apart_latest (ℓ := latestSnapshotKey) (by decide) (by decide))
  obtain ⟨last, hlast⟩ := eq_snapshot hlatest
  rw [hlast] at hlatest
  exact ⟨last, hlatest,
    congrArg Reply.snapshot (h.get_eq (by decide) hlast fun snap raw hraw => hc.snapshot snap raw hraw)⟩

theorem Represents.latestBootstrap (hc : RoundTrips c) (h : Represents c m files)
    (hafter : Versioned.After (entrySave c) acknowledged log m) : ∃ last : Option Bootstrap,
      Versioned.Latest (entrySave c) acknowledged latestBootstrapKey (Holds c files) log (last.map .bootstrap) ∧
      (FS.step c (.loadLatestBootstrap, []) files).1 = .bootstrap (.ok last) := by
  have hlatest := h.latest hafter (apart_latest (ℓ := latestBootstrapKey) (by decide) (by decide))
  obtain ⟨last, hlast⟩ := eq_bootstrap hlatest
  have hload : (get latestBootstrapKey c.unmarshalBootstrap ⟨files, []⟩).1 = .ok (last.map id) :=
    h.get_eq (by decide) hlast fun b raw hraw => hc.bootstrap b raw hraw
  rw [Option.map_id] at hload
  rw [hlast] at hlatest
  exact ⟨last, hlatest, congrArg Reply.bootstrap hload⟩

/-- Nothing is torn. -/
theorem Represents.whole (h : Represents c m files) (hafter : Versioned.After (entrySave c) acknowledged log m)
    {raw : Bytes} (hkey : isTmp key = false) (hraw : files.lookup key = some raw) :
    ∃ e ∈ log, ∃ s, entrySave c e = some s ∧ (key = s.key ∨ key = s.latest) ∧ s.value.marshal c = .ok raw := by
  have hrep := h key hkey
  rw [hraw, Option.map_some] at hrep
  obtain ⟨o, ho, hmarshal⟩ := Option.map_eq_some_iff.1 hrep.symm
  obtain ⟨e, he, s, hs, hkeys, rfl⟩ := hafter.origin ho
  exact ⟨e, he, s, hs, hkeys, hmarshal⟩

end FS

/-- However the operations on the files break, by an error or by the end of the process: the latest object that is
loaded is that of the last save that was acknowledged or of an attempt after it, the file under its own key holds it
too unless a later attempt under that key has replaced it, and every file is an object that was saved, as a whole. -/
theorem latest_survives_faults (hc : RoundTrips c) (calls : List (Call × List Fate)) :
    let files := runFrom (advance (FS.step c)) calls []
    let log := replies (FS.logged c) calls []
    (∃ last : Option Snapshot,
      Versioned.Latest (FS.entrySave c) FS.acknowledged latestSnapshotKey (FS.Holds c files) log
        (last.map .snapshot) ∧
      (FS.step c (.loadLatestSnapshot, []) files).1 =
        .snapshot (.ok (last.map fun s => { s with declaredLoad := none }))) ∧
    (∃ last : Option Bootstrap,
      Versioned.Latest (FS.entrySave c) FS.acknowledged latestBootstrapKey (FS.Holds c files) log
        (last.map .bootstrap) ∧
      (FS.step c (.loadLatestBootstrap, []) files).1 = .bootstrap (.ok last)) ∧
    ∀ key raw, FS.isTmp key = false → files.lookup key = some raw →
      ∃ e ∈ log, ∃ s, FS.entrySave c e = some s ∧ (key = s.key ∨ key = s.latest) ∧ s.value.marshal c = .ok raw := by
  intro files log
  obtain ⟨m, hafter, hm⟩ := FS.represents_run c calls
  have hfiles : FS.Represents c m files := hm
  exact ⟨hfiles.latestSnapshot hc hafter, hfiles.latestBootstrap hc hafter,
    fun key raw hkey hraw => hfiles.whole hafter hkey hraw⟩

/-- The second save ends in the last rename, before it is done. -/
def broken : List (Call × List Fate) :=
  [(.saveSnapshot (sample 1), []),
    (.saveSnapshot (sample 2), [.done, .done, .done, .done, .done, .breaks "input/output error" 0])]

theorem latest_survives_faults_broken :
    (FS.step sampleCodec (.loadLatestSnapshot, []) (runFrom (advance (FS.step sampleCodec)) broken [])).1 =
      .snapshot (.ok (some (sample 1))) ∧
    ∃ last : Snapshot, { last with declaredLoad := none } = sample 1 ∧
      Versioned.Latest (FS.entrySave sampleCodec) FS.acknowledged latestSnapshotKey
        (FS.Holds sampleCodec (runFrom (advance (FS.step sampleCodec)) broken []))
        (replies (FS.logged sampleCodec) broken []) (some (.snapshot last)) := by
  have hloaded : (FS.step sampleCodec (.loadLatestSnapshot, [])
      (runFrom (advance (FS.step sampleCodec)) broken [])).1 = .snapshot (.ok (some (sample 1))) := by decide +kernel
  obtain ⟨⟨last, hlatest, hload⟩, -⟩ := latest_survives_faults sampleCodec_roundTrips broken
  rw [hloaded] at hload
  cases last with
  | none => simp at hload
  | some last =>
      refine ⟨hloaded, last, ?_, hlatest⟩
      simpa using hload.symm

end TrustAnchor.Store
