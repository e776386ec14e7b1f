import UserFace800.Dext.BusReset
import Mathlib.Data.List.TakeWhile
/-!
# What a config ROM says a node is

Everything `parse_config_rom` goes by is another node's: lengths, offsets, types. It reads
nothing outside the array whatever they are. The loop over the root directory asks each
entry for its type, the one over the unit directory does not, so there a leaf or an offset
with the key of an identity field is taken for the field. `identity_iff` says when that
makes no difference.
-/
open UserFace800.Lib

namespace UserFace800.Dext

/-! ## Every read -/

/-- The quadlet `i` of the array. -/
def readAt (q : List U32) (i : ℕ) : Logged ℕ U32 := .note i (q.getD i 0)

/-- The loop over a directory's entries from the `i`-th on, `n` of them at most. -/
def dirLoop {σ : Type} (q : List U32) (dir : ℕ) (f : σ → ℕ × U32 → σ) : ℕ → ℕ → σ → Logged ℕ σ
  | 0, _, s => pure s
  | n + 1, i, s =>
    if dir + i < q.length then do
      let e ← readAt q (dir + i)
      dirLoop q dir f n (i + 1) (f s (dir + i, e))
    else pure s

/-- `parse_config_rom` with the indices it reads. -/
def parseConfigRomReads (q : List U32) : Logged ℕ RomIdentity :=
  if q.length < 1 then pure {}
  else do
    let busInfo ← readAt q 0
    let root := 1 + ((busInfo >>> 24) &&& 0xff).toNat
    if root ≥ q.length then pure {}
    else do
      let header ← readAt q root
      let (id, unitDir) ← dirLoop q root rootEntry ((header >>> 16) &&& 0xffff).toNat 1 ({}, 0)
      if unitDir ≠ 0 ∧ unitDir < q.length then do
        let header ← readAt q unitDir
        let id ← dirLoop q unitDir unitEntry ((header >>> 16) &&& 0xffff).toNat 1 id
        pure { id with hasUnit := true }
      else pure id

/-! ## What the directories say -/

/-- The key of the vendor, in the root directory. -/
abbrev kKeyVendor : U32 := 0x03

/-- The key of the unit directory. -/
abbrev kKeyUnitDir : U32 := 0x11

/-- The key of the specifier, in the unit directory. -/
abbrev kKeySpecifierId : U32 := 0x12

/-- The key of the unit's version. -/
abbrev kKeyVersion : U32 := 0x13

/-- The key of the model. -/
abbrev kKeyModel : U32 := 0x17

/-- The entries of the root directory that lie inside the array. -/
def rootEntries (q : List U32) : List (ℕ × U32) := entries q (1 + ((q.getD 0 0 >>> 24) &&& 0xff).toNat)

/-- Where the last directory-type entry for a unit directory points to. -/
def unitDirectory (q : List U32) : Option ℕ :=
  ((rootEntries q).filter fun e => entryKeyId e.2 = kKeyUnitDir ∧ entryKeyType e.2 = 3).getLast?.map
    fun e => e.1 + (entryValue e.2).toNat

/-- The entries of the unit directory, none if there is no such directory. -/
def unitEntries (q : List U32) : List (ℕ × U32) := (unitDirectory q).elim [] (entries q)

/-- The value of the last immediate entry with the key, 0 if there is none. -/
def field (key : U32) (es : List (ℕ × U32)) : U32 :=
  ((es.filter fun e => entryKeyId e.2 = key ∧ entryKeyType e.2 = 0).getLast?.map fun e => entryValue e.2).getD 0

/-- The identity is what the immediate entries say. -/
structure Identified (q : List U32) (id : RomIdentity) : Prop where
  vendorId : id.vendorId = field kKeyVendor (rootEntries q)
  specifierId : id.specifierId = field kKeySpecifierId (unitEntries q)
  version : id.version = field kKeyVersion (unitEntries q)
  modelId : id.modelId = field kKeyModel (unitEntries q)

/-- The last entry with the key, if there is one, is immediate, or has the value all the same. -/
def LastImmediate (key : U32) (es : List (ℕ × U32)) : Prop :=
  ∀ e, (es.filter fun e => entryKeyId e.2 = key).getLast? = some e → entryKeyType e.2 = 0 ∨
  entryValue e.2 = field key es

/-! ## The reads are inside the array -/

theorem dirLoop_val {σ : Type} (q : List U32) (dir : ℕ) (f : σ → ℕ × U32 → σ) (n i : ℕ) (s : σ) :
    (dirLoop q dir f n i s).val = (((List.range' i n).takeWhile fun k => dir + k < q.length).map
      fun k => (dir + k, q.getD (dir + k) 0)).foldl f s := by
  induction n generalizing i s with
  | zero => rfl
  | succ n ih =>
    rw [dirLoop, List.range'_succ, List.takeWhile_cons]
    split
    · rename_i h
      rw [Logged.val_bind, ih, if_pos (decide_eq_true h)]
      rfl
    · rename_i h
      rw [if_neg (by simpa using h)]
      rfl

theorem dirLoop_reads {σ : Type} (q : List U32) (dir : ℕ) (f : σ → ℕ × U32 → σ) (n i : ℕ) (s : σ) :
    (dirLoop q dir f n i s).Logs (· < q.length) := by
  induction n generalizing i s with
  | zero => exact Logged.logs_pure _
  | succ n ih =>
    rw [dirLoop]
    split
    · rename_i h
      exact .bind ((Logged.logs_note _ _).2 h) (ih _ _)
    · exact Logged.logs_pure _

theorem dirLoop_entries {σ : Type} (q : List U32) (dir : ℕ) (f : σ → ℕ × U32 → σ) (s : σ) :
    (dirLoop q dir f ((q.getD dir 0 >>> 16) &&& 0xffff).toNat 1 s).val = (entries q dir).foldl f s :=
  dirLoop_val q dir f _ 1 s

theorem parseConfigRomReads_val (q : List U32) : (parseConfigRomReads q).val = parseConfigRom q := by
  unfold parseConfigRomReads parseConfigRom readAt
  cases q with
  | nil => rfl
  | cons b q =>
    rw [if_neg (show ¬ (b :: q).length < 1 by simp), Logged.val_bind, Logged.val_note]
    dsimp only
    split
    · rfl
    · rw [Logged.val_bind, Logged.val_bind, Logged.val_note, dirLoop_entries]
      split
      · rw [Logged.val_bind, Logged.val_bind, Logged.val_note, dirLoop_entries]
        rfl
      · rfl

theorem parseConfigRomReads_reads (q : List U32) : (parseConfigRomReads q).Logs (· < q.length) := by
  unfold parseConfigRomReads
  split
  · exact Logged.logs_pure _
  · rename_i hlen
    refine .bind ((Logged.logs_note _ _).2 (by omega)) ?_
    dsimp only
    split
    · exact Logged.logs_pure _
    · rename_i hroot
      refine .bind ((Logged.logs_note _ _).2 (by omega)) (.bind (dirLoop_reads _ _ _ _ _ _) ?_)
      split
      · rename_i hunit
        exact .bind ((Logged.logs_note _ _).2 hunit.2) (.bind (dirLoop_reads _ _ _ _ _ _) (Logged.logs_pure _))
      · exact Logged.logs_pure _

/-! ## The fields -/

/-- A loop that overwrites `g` where `p` leaves what the last such entry says. -/
theorem foldl_last {σ α β : Type} (p : α → Prop) [DecidablePred p] (f : α → β) (g : σ → β) {step : σ → α → σ}
    (hset : ∀ s e, p e → g (step s e) = f e) (hkeep : ∀ s e, ¬ p e → g (step s e) = g s) (s : σ) (es : List α) :
    g (es.foldl step s) = ((es.filter fun e => p e).getLast?.map f).getD (g s) := by
  induction es using List.reverseRecOn with
  | nil => rfl
  | append_singleton es e ih =>
    rw [List.foldl_append, List.foldl_cons, List.foldl_nil, List.filter_append]
    by_cases hp : p e
    · rw [hset _ _ hp]
      simp [hp]
    · rw [hkeep _ _ hp, ih]
      simp [hp]

/-- What the loop over the unit directory takes for a field: the value of the last entry with the key. -/
def lastField (key : U32) (es : List (ℕ × U32)) : U32 :=
  ((es.filter fun e => entryKeyId e.2 = key).getLast?.map fun e => entryValue e.2).getD 0

theorem root_vendorId (es : List (ℕ × U32)) : (es.foldl rootEntry ({}, 0)).1.vendorId = field kKeyVendor es := by
  refine foldl_last _ _ (fun s : RomIdentity × ℕ => s.1.vendorId) (fun s e h => ?_) (fun s e h => ?_) ({}, 0) es
  · rw [rootEntry, if_pos h]
  · rw [rootEntry, if_neg h]
    split <;> rfl

theorem root_unitDir (es : List (ℕ × U32)) : (es.foldl rootEntry ({}, 0)).2 =
    ((es.filter fun e => entryKeyId e.2 = kKeyUnitDir ∧ entryKeyType e.2 = 3).getLast?.map
      fun e => e.1 + (entryValue e.2).toNat).getD 0 := by
  refine foldl_last _ _ (fun s : RomIdentity × ℕ => s.2) (fun s e h => ?_) (fun s e h => ?_) ({}, 0) es
  · have hvendor : ¬ (entryKeyId e.2 = kKeyVendor ∧ entryKeyType e.2 = 0) := by
      rw [h.1]
      exact fun hno => absurd hno.1 (by decide)
    rw [rootEntry, if_neg hvendor, if_pos h]
  · rw [rootEntry, if_neg h]
    split <;> rfl

/-- The root directory says nothing about the unit. -/
theorem root_rest (es : List (ℕ × U32)) : (es.foldl rootEntry ({}, 0)).1.specifierId = 0 ∧
    (es.foldl rootEntry ({}, 0)).1.version = 0 ∧ (es.foldl rootEntry ({}, 0)).1.modelId = 0 := by
  induction es using List.reverseRecOn with
  | nil => exact ⟨rfl, rfl, rfl⟩
  | append_singleton es e ih =>
    rw [List.foldl_append, List.foldl_cons, List.foldl_nil]
    unfold rootEntry
    split
    · exact ih
    · split <;> exact ih

theorem unit_vendorId (id : RomIdentity) (es : List (ℕ × U32)) : (es.foldl unitEntry id).vendorId = id.vendorId := by
  induction es using List.reverseRecOn with
  | nil => rfl
  | append_singleton es e ih =>
    rw [List.foldl_append, List.foldl_cons, List.foldl_nil, ← ih]
    unfold unitEntry
    split
    · rfl
    · split
      · rfl
      · split <;> rfl

theorem unit_fields {id : RomIdentity} (hs : id.specifierId = 0) (hv : id.version = 0) (hm : id.modelId = 0)
    (es : List (ℕ × U32)) : (es.foldl unitEntry id).specifierId = lastField kKeySpecifierId es ∧
      (es.foldl unitEntry id).version = lastField kKeyVersion es ∧
      (es.foldl unitEntry id).modelId = lastField kKeyModel es := by
  refine ⟨?_, ?_, ?_⟩
  · rw [lastField, ← hs]
    refine foldl_last _ _ RomIdentity.specifierId (fun id e h => ?_) (fun id e h => ?_) id es
    · rw [unitEntry, if_pos h]
    · rw [unitEntry, if_neg h]
      split
      · rfl
      · split <;> rfl
  · rw [lastField, ← hv]
    refine foldl_last _ _ RomIdentity.version (fun id e h => ?_) (fun id e h => ?_) id es
    · rw [unitEntry, h, if_neg (by decide), if_pos rfl]
    · rw [unitEntry, if_neg h]
      split
      · rfl
      · split <;> rfl
  · rw [lastField, ← hm]
    refine foldl_last _ _ RomIdentity.modelId (fun id e h => ?_) (fun id e h => ?_) id es
    · rw [unitEntry, h, if_neg (by decide), if_neg (by decide), if_pos rfl]
    · rw [unitEntry, if_neg h]
      split
      · rfl
      · split <;> rfl

/-- A directory outside the array has no entries in it. -/
theorem entries_outside {q : List U32} {dir : ℕ} (h : q.length ≤ dir) : entries q dir = [] := by
  unfold entries
  rw [List.map_eq_nil_iff, List.takeWhile_eq_nil_iff]
  intro hl hlt
  have := of_decide_eq_true hlt
  omega

theorem unitDirectory_ne_zero {q : List U32} {d : ℕ} (h : unitDirectory q = some d) : d ≠ 0 := by
  obtain ⟨e, he, rfl⟩ := Option.map_eq_some_iff.1 h
  have hmem := List.mem_of_mem_filter (List.mem_of_getLast? he)
  obtain ⟨k, -, rfl⟩ := List.mem_map.1 hmem
  dsimp only
  omega

/-- What is returned, by the entries it is taken from. -/
theorem parseConfigRom_fields (q : List U32) : (parseConfigRom q).vendorId = field kKeyVendor (rootEntries q) ∧
    (parseConfigRom q).specifierId = lastField kKeySpecifierId (unitEntries q) ∧
    (parseConfigRom q).version = lastField kKeyVersion (unitEntries q) ∧
    (parseConfigRom q).modelId = lastField kKeyModel (unitEntries q) := by
  obtain ⟨hs, hv, hm⟩ := root_rest (rootEntries q)
  have hvendor := root_vendorId (rootEntries q)
  have hunit : ((rootEntries q).foldl rootEntry ({}, 0)).2 = (unitDirectory q).getD 0 := root_unitDir (rootEntries q)
  unfold parseConfigRom
  dsimp only
  split
  · rename_i hout
    have hroot : rootEntries q = [] := entries_outside hout
    rw [unitEntries, unitDirectory, hroot]
    exact ⟨rfl, rfl, rfl, rfl⟩
  · rw [show entries q _ = rootEntries q from rfl, hunit]
    unfold unitEntries
    cases hdir : unitDirectory q with
    | none =>
      rw [Option.getD_none, if_neg (fun h => h.1 rfl)]
      exact ⟨hvendor, hs, hv, hm⟩
    | some d =>
      rw [Option.getD_some, Option.elim_some]
      split
      · exact ⟨(unit_vendorId _ _).trans hvendor, unit_fields hs hv hm _⟩
      · rename_i hout
        rw [entries_outside (Nat.not_lt.1 fun h => hout ⟨unitDirectory_ne_zero hdir, h⟩)]
        exact ⟨hvendor, hs, hv, hm⟩

/-! ## When the identity is right -/

theorem lastField_eq_iff (key : U32) (es : List (ℕ × U32)) :
    lastField key es = field key es ↔ LastImmediate key es := by
  have hfield : field key es =
      (((es.filter fun e => entryKeyId e.2 = key).filter fun e => entryKeyType e.2 = 0).getLast?.map
        fun e => entryValue e.2).getD 0 := by
    rw [field, List.filter_filter]
    congr 3
    refine List.filter_congr fun e _ => ?_
    rw [← Bool.decide_and, decide_eq_decide]
    exact and_comm
  unfold lastField LastImmediate
  rw [hfield]
  rcases List.eq_nil_or_concat' (es.filter fun e => entryKeyId e.2 = key) with hnil | ⟨before, e, hlast⟩
  · rw [hnil]
    exact ⟨fun _ e he => (nomatch he), fun _ => rfl⟩
  · rw [hlast, List.getLast?_concat]
    constructor
    · rintro h e' he'
      cases he'
      exact .inr h
    · intro h
      rcases h e rfl with himm | hvalue
      · simp [himm]
      · exact hvalue

/-- Whatever the array holds, `parse_config_rom` reads inside it, and returns the identity the
immediate entries give exactly if the last entry of each key of the unit directory is one, or as good as one. -/
theorem identity_iff (q : List U32) : (parseConfigRomReads q).Logs (· < q.length) ∧
    (Identified q (parseConfigRomReads q).val ↔ LastImmediate kKeySpecifierId (unitEntries q) ∧
      LastImmediate kKeyVersion (unitEntries q) ∧ LastImmediate kKeyModel (unitEntries q)) := by
  refine ⟨parseConfigRomReads_reads q, ?_⟩
  obtain ⟨hvendor, hspecifier, hversion, hmodel⟩ := parseConfigRom_fields q
  rw [parseConfigRomReads_val, ← lastField_eq_iff, ← lastField_eq_iff, ← lastField_eq_iff]
  constructor
  · intro h
    exact ⟨hspecifier.symm.trans h.specifierId, hversion.symm.trans h.version, hmodel.symm.trans h.modelId⟩
  · rintro ⟨hs, hv, hm⟩
    exact ⟨hvendor, hspecifier.trans hs, hversion.trans hv, hmodel.trans hm⟩

/-- The unit directory has the model and, behind it, a leaf with the same key. -/
def leafRom : List U32 := [0, 0x00020000, 0x03000a35, 0xd1000001, 0x00020000, 0x17101800, 0x97000005]

theorem leaf_model : (parseConfigRomReads leafRom).val.modelId = 5 ∧ field kKeyModel (unitEntries leafRom) = 0x101800 ∧
    ¬ Identified leafRom (parseConfigRomReads leafRom).val := by
  have hmodel : (parseConfigRomReads leafRom).val.modelId = 5 := by decide +kernel
  have hfield : field kKeyModel (unitEntries leafRom) = 0x101800 := by decide +kernel
  refine ⟨hmodel, hfield, fun h => ?_⟩
  have hno := h.modelId
  rw [hmodel, hfield] at hno
  exact absurd hno (by decide)

end UserFace800.Dext
